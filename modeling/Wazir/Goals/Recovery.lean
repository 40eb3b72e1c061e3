import Wazir.Goals.RecoveryLimits
import Wazir.Goals.RepairHypotheses

/-! The recovery service (`recovery/service.ts`): whether a failed attempt is retried, repaired
under a new hypothesis, or ends in a blocked target. What an injected generator proposes is an
input of the decision. -/

namespace Wazir.Goals

/-- What the service uses of its host and of `@wazir/core`. -/
structure RecoveryHost where
  /-- `toLowerCase().normalize('NFKD')` -/
  fold : String → List Char
  localeCompare : String → String → Ordering
  /-- The hex digest of a text. -/
  sha256 : List Char → String
  /-- `FailureSignatureGenerator.fromError` -/
  errorSignature : Option GoalStudioFailure → String

/-- Backoff before the n-th consecutive transient retry, counted from 1. -/
def backoffMs (retryNumber : ℕ) (limits : RecoveryLimits) (retryAfterMs : Option ℤ) : ℤ :=
  min limits.backoffMaxMs
    (max (limits.backoffBaseMs * 2 ^ min (retryNumber - 1) 20)
      ((retryAfterMs.filter (0 < ·)).getD 0))

structure ObservedFailure where
  attempt : TargetAttempt
  classification : FailureClassification
  signature : String

structure RecoveryVerdict extends RecoveryDecision where
  reasons : List String

def isFailedAttempt (a : TargetAttempt) : Bool :=
  a.outcome = some .failed || a.outcome = some .blocked ||
    (a.error.isSome && a.outcome ≠ some .succeeded)

/-- The error recorded for an attempt that failed at the acceptance gate. -/
def attemptErrorFromGate (gate : AcceptanceGateDecision) : GoalStudioFailure where
  code := .verificationFailed
  message := "Acceptance gate decided " ++ gate.decision.name
  retryable := false
  details :=
    let criteria := ((gate.perCriterion.filter fun row => row.verdict ≠ "PASS").map fun row =>
      trim row.criterion).dedup
    [("failedCriteria", .arr ((sortBy compareStrings criteria).map .str)),
      ("gateReasons", .arr ((gate.reasons.take 10).map .str))]

structure DecideInput where
  run : GoalRunLedger
  target : RecoveryTarget
  attempt : TargetAttempt
  priorAttempts : List TargetAttempt
  gate : Option AcceptanceGateDecision
  error : Option GoalStudioFailure

/-- How the call of an injected generator ended: with a value, or with an exception, whose message
is `none` when it is no `Error`. -/
structure GeneratorCall where
  id : String
  outcome : Except (Option String) JsValue

/-- The error a decision is about: the one given, the attempt's own, or the gate's. -/
def DecideInput.failure (input : DecideInput) : Except Thrown GoalStudioFailure :=
  match input.error.or input.attempt.error, input.gate with
  | some error, _ => .ok error
  | none, none => invalid "none"
  | none, some gate =>
    if gate.decision = .completed ∨ gate.decision = .needsApproval ∨
        gate.decision = .awaitingExternal then invalid gate.decision.name
    else .ok (attemptErrorFromGate gate)
where
  invalid (decision : String) : Except Thrown GoalStudioFailure :=
    fail .validation ("recovery.decide called without a failure (gate decision: " ++ decision ++
      "); route the target by its gate decision instead") [("targetId", .str input.target.id)]

section Service

variable (host : RecoveryHost)

def computeFailureSignature (targetId : TargetId) (classification : FailureClassification)
    (error : Option GoalStudioFailure) : String :=
  let parts : JsValue := .obj ([("target", .str targetId),
    ("class", .str classification.failureClass.name),
    ("category", .str classification.coreCategory.name),
    ("code", .str ((error.map fun e => e.code.name).getD "NONE"))] ++
    -- failures at the gate are told apart by the criteria that fail, not by their texts
    if classification.failedCriteria ≠ [] then
      [("criteria", .arr (classification.failedCriteria.map .str))]
    else [("error", .str (host.errorSignature error))])
  "fs1:" ++ classification.failureClass.name ++ ":" ++ slice 24 (host.sha256 parts.jsonText)

def observe (targetId : TargetId) (attempt : TargetAttempt) (error : Option GoalStudioFailure)
    (gate : Option AcceptanceGateDecision) : ObservedFailure :=
  let classification := classifyGoalFailure error gate
  ⟨attempt, classification, computeFailureSignature host targetId classification error⟩

/-- By attempt number, then by start, then by id. -/
def compareAttempts (a b : TargetAttempt) : Ordering :=
  (compare a.attempt b.attempt).then <|
    (host.localeCompare (isoText a.startedAt) (isoText b.startedAt)).then <|
      host.localeCompare a.id b.id

def DecideInput.isPrior (input : DecideInput) (a : TargetAttempt) : Bool :=
  a.targetId = input.target.id && a.id ≠ input.attempt.id && isFailedAttempt a

def DecideInput.prior (input : DecideInput) : List ObservedFailure :=
  (sortBy (compareAttempts host) (input.priorAttempts.filter input.isPrior)).map fun a =>
    observe host input.target.id a a.error none

/-- Those that are not a rewording of one before them. -/
def uniqueHypotheses (values : List (Option String)) : List String :=
  values.foldl (fun out value =>
    let clean := (value.map sanitizeText).getD ""
    if clean ≠ "" ∧ ¬ out.any fun prior => isDuplicateHypothesis host.fold clean prior then
      out ++ [clean]
    else out) []

/-! Proposals. -/

structure Proposals where
  rejected : ℕ
  reasons : List String

def Proposals.rejectedNote (p : Proposals) : List String :=
  if 0 < p.rejected then
    ["rejected " ++ toString p.rejected ++ " non-novel hypothesis candidate(s)"]
  else []

/-- The candidates of one generator, in their order. -/
def considerCandidates (generatorId : String) (trusted : Bool) (prior : List String) :
    List JsValue → Proposals → Option String × Proposals
  | [], p => (none, p)
  | raw :: rest, p =>
    let candidate := sanitizeHypothesis raw
    if candidate = "" then considerCandidates generatorId trusted prior rest p
    else if !trusted && isUnsafeHypothesis candidate then
      considerCandidates generatorId trusted prior rest
        { p with reasons := p.reasons ++ ["rejected unsafe proposal from " ++ generatorId] }
    else if prior.any fun h => isDuplicateHypothesis host.fold candidate h then
      considerCandidates generatorId trusted prior rest { p with rejected := p.rejected + 1 }
    else
      (some candidate,
        { p with reasons := p.reasons ++ p.rejectedNote ++ ["hypothesis from " ++ generatorId] })

/-- The injected generator goes first, then the rule-based one. -/
def proposeHypothesis (injected : Option GeneratorCall) (request : RepairHypothesisRequest) :
    Option String × List String :=
  let first : Option String × Proposals := match injected with
    | none => (none, ⟨0, []⟩)
    | some call =>
      match call.outcome with
      | .ok proposed =>
        considerCandidates host call.id false request.priorHypotheses
          ((proposed.array.getD []).take 32) ⟨0, []⟩
      | .error message =>
        (none, ⟨0, ["hypothesis generator " ++ call.id ++ " failed (" ++
          ((message.map (slice 120)).getD "error") ++ "); falling back"]⟩)
  match first with
  | (some hypothesis, p) => (some hypothesis, p.reasons)
  | (none, p) =>
    match considerCandidates host "rule-based-v1" true request.priorHypotheses
      ((request.ruleBased.take 32).map .str) p with
    | (some hypothesis, p) => (some hypothesis, p.reasons)
    | (none, p) => (none, p.reasons ++ p.rejectedNote)

/-! Deciding. -/

/-- A failure as it stands when it is decided on. -/
structure Failing where
  error : GoalStudioFailure
  prior : List ObservedFailure
  current : ObservedFailure

def DecideInput.assess (input : DecideInput) : Except Thrown Failing := do
  if input.attempt.targetId ≠ input.target.id then
    fail .validation ("attempt " ++ input.attempt.id ++ " belongs to " ++ input.attempt.targetId ++
      ", not " ++ input.target.id)
  let error ← input.failure
  return ⟨error, input.prior host,
    observe host input.target.id input.attempt (some error) input.gate⟩

def Failing.decision (f : Failing) (action : RecoveryAction) (reasons : List String)
    (diagnosis : String := "") (failureClass : Option FailureClass := none)
    (hypothesis : Option String := none) : RecoveryVerdict where
  action := action
  failureClass := (failureClass.getD f.current.classification.failureClass).name
  diagnosis := diagnosis ++ f.current.classification.diagnosis
  hypothesis := hypothesis
  failureSignature := f.current.signature
  reasons := f.current.classification.reasons ++ reasons

/-- Consecutive retryable failures, the present one counted. -/
def Failing.streak (f : Failing) : ℕ :=
  1 + (f.prior.reverse.takeWhile fun o => o.classification.retryable).length

/-- How often the present failure was seen among those a retry does not get around. -/
def Failing.occurrences (f : Failing) : ℕ :=
  1 + (f.prior.filter fun o =>
    !o.classification.retryable && o.signature = f.current.signature).length

def DecideInput.ledgerEntry (input : DecideInput) : Option TargetLedgerEntry :=
  input.run.targets.lookup input.target.id

/-- The hypotheses of the earlier failed attempts and of the present one, as recorded. -/
def Failing.tried (f : Failing) : List (Option String) :=
  f.prior.map (fun o => o.attempt.repairHypothesis) ++ [f.current.attempt.repairHypothesis]

def Failing.request (f : Failing) (target : RecoveryTarget) : RepairHypothesisRequest where
  target := target
  failureClass := f.current.classification.failureClass
  coreCategory := f.current.classification.coreCategory
  failedCriteria := f.current.classification.failedCriteria
  priorHypotheses := uniqueHypotheses host f.tried

def Failing.hints (f : Failing) : List String :=
  let observed (o : ObservedFailure) : FailureObservation :=
    ⟨o.attempt.attempt, o.classification.coreCategory, o.signature⟩
  generateHints ((f.prior.filter fun o => !o.classification.retryable).map observed)
    (observed f.current)

section Rules

variable (limits : RecoveryLimits) (input : DecideInput) (f : Failing)

def attemptCapReached : Bool :=
  maxAttemptsFor limits ≤ f.prior.length + 1 ||
    maxAttemptsFor limits ≤ (input.ledgerEntry.map (·.attempts)).getD 0

def repairsUsed : ℕ :=
  max ((input.ledgerEntry.map (·.repairs)).getD 0) (uniqueHypotheses host f.tried).length

/-- The decision as long as no new hypothesis is called for. -/
def decideAtOnce : Option RecoveryVerdict :=
  if f.current.classification.terminal then
    some (f.decision .block ["blocked: terminal failure class"])
  else if attemptCapReached limits input f then
    some (f.decision .block ["blocked: attempt cap " ++ toString (maxAttemptsFor limits) ++
      " reached (failed attempts " ++ toString (f.prior.length + 1) ++ ", ledger attempts " ++
      toString ((input.ledgerEntry.map (·.attempts)).getD 0) ++ ")"] "Attempt cap reached: ")
  else if f.current.classification.retryable then
    if limits.maxTransientRetries < f.streak then
      some (f.decision .block ["blocked: " ++ toString (f.streak - 1) ++
        " consecutive transient retries exhausted (limit " ++ toString limits.maxTransientRetries ++
        ")"] "Transient retries exhausted: ")
    else
      let retryAfter := match f.error.detail "retryAfterMs" with
        | some (.num ms) => some ms
        | _ => none
      some (f.decision .retry ["retry " ++ toString f.streak ++ "/" ++
        toString limits.maxTransientRetries,
        "backoff_ms=" ++ toString (backoffMs f.streak limits retryAfter)])
  else if limits.maxSameActionNoProgress ≤ f.occurrences then
    some (f.decision .block ["blocked: failure signature observed " ++ toString f.occurrences ++
      " times with no progress (limit " ++ toString limits.maxSameActionNoProgress ++ ")"]
      "No progress: " (some .noProgress))
  else if limits.maxRepairsPerTask ≤ repairsUsed host input f then
    some (f.decision .block ["blocked: repair budget exhausted (" ++
      toString (repairsUsed host input f) ++ "/" ++ toString limits.maxRepairsPerTask ++ ")"]
      "Repair budget exhausted: ")
  else none

/-- A repair, if some hypothesis is new. -/
def decideRepair (injected : Option GeneratorCall) : RecoveryVerdict :=
  match proposeHypothesis host injected (f.request host input.target) with
  | (none, reasons) =>
    f.decision .block (reasons ++ ["blocked: no novel repair hypothesis"])
      "No novel repair hypothesis: "
  | (some hypothesis, reasons) =>
    f.decision .repair (reasons ++ ["repair " ++ toString (repairsUsed host input f + 1) ++ "/" ++
      toString limits.maxRepairsPerTask] ++ (f.hints.take 3).map ("hint: " ++ ·)) "" none
      (some hypothesis)

end Rules

/-- `decide`, under resolved limits. -/
def decideRecovery (limits : RecoveryLimits) (injected : Option GeneratorCall)
    (input : DecideInput) : Except Thrown RecoveryVerdict := do
  let f ← input.assess host
  return (decideAtOnce host limits input f).getD (decideRepair host limits input f injected)

end Service

end Wazir.Goals
