import Wazir.Goals.Controller
import Wazir.Goals.GraphId

/-! The deterministic acceptance gate (`verification/gate.ts`). A record names the criterion it
was recorded against by its text or as `#N`; the gate resolves that name against the target's
acceptance list, whoever wrote it. -/

namespace Wazir.Goals

structure ArtifactRef where
  uri : String
  digest : String
  sizeBytes : Option ℕ
  deriving DecidableEq

/-- An evidence record with the fields only the verification service looks at. -/
structure StoredEvidence extends EvidenceRecord where
  runId : GoalRunId
  targetId : TargetId
  attemptId : TargetAttemptId
  graphRevision : ℕ
  workspaceRevision : String
  artifacts : List ArtifactRef
  criterion : Option String
  command : Option String
  limitations : List String
  createdAt : Timestamp

structure ArtifactProblem where
  uri : String
  reason : String

/-- Current bytes of a target's artifacts. -/
structure WorkspaceState where
  workspaceRevision : String
  artifacts : List ArtifactRef
  problems : List ArtifactProblem

structure GateInput where
  run : GoalRunLedger
  target : GoalTarget
  attempt : TargetAttempt
  evidence : List StoredEvidence
  current : Option WorkspaceState
  executorIdentity : Option String

structure GateOptions where
  acceptReviewerPass : Bool

structure GateVerdict extends AcceptanceGateDecision where
  runId : GoalRunId
  targetId : TargetId
  attemptId : TargetAttemptId
  decidedAt : Timestamp

def deterministicMethods : List String :=
  ["existence", "schema", "content-check", "command", "test-suite"]

def humanMethods : List String := ["human-signoff", "external-record"]

def selfReportMethods : List String := ["self-report", "self_report", "model-claim", "executor-claim"]

/-- `/^#(\d+)$/` on the trimmed reference. -/
def referenceNumber (ref : String) : Option ℕ :=
  match (trim ref).toList with
  | '#' :: digits =>
    if digits ≠ [] ∧ digits.all Char.isDigit then some (Nat.ofDigitChars 10 digits 0) else none
  | _ => none

def resolveCriterion (acceptance : List String) : Option String → Option String
  | none => none
  | some ref =>
    match referenceNumber ref with
    | some 0 => none
    | some (n + 1) => acceptance[n]?
    | none => if ref ∈ acceptance then some ref else none

def byTime (a b : StoredEvidence) : Ordering :=
  if a.createdAt.1 < b.createdAt.1 then .lt else if b.createdAt.1 < a.createdAt.1 then .gt
  else compareStrings a.id b.id

/-- `Map.prototype.set`, on the entries in their order. -/
def setEntry {α : Type} (entries : List (String × α)) (key : String) (value : α) :
    List (String × α) :=
  if entries.any fun kv => kv.1 = key then
    entries.map fun kv => if kv.1 = key then (key, value) else kv
  else entries ++ [(key, value)]

def entriesOf {α : Type} (key : α → String) (values : List α) : List (String × α) :=
  values.foldl (fun entries a => setEntry entries (key a) a) []

def referenceState (evidence : List StoredEvidence) (attemptId : TargetAttemptId) :
    Option WorkspaceState :=
  let mine := evidence.filter fun e => e.attemptId = attemptId
  let checksums := sortBy byTime (mine.filter fun e => e.validationMethod = "checksum")
  let candidates :=
    if checksums ≠ [] then checksums else sortBy byTime (mine.filter fun e => e.artifacts ≠ [])
  candidates.getLast?.map fun latest =>
    let batch := candidates.filter fun e => e.workspaceRevision = latest.workspaceRevision
    { workspaceRevision := latest.workspaceRevision
      artifacts := (entriesOf ArtifactRef.uri (batch.flatMap StoredEvidence.artifacts)).map Prod.snd
      problems := [] }

def isSelfReport (e : StoredEvidence) (executors : List String) : Bool :=
  String.ofList (toLowerCase e.validationMethod.toList) ∈ selfReportMethods ||
    trim e.validatorIdentity = "" || e.validatorIdentity = e.executorIdentity ||
    e.validatorIdentity ∈ executors

/-- The last artifact of a uri. -/
def currentArtifact (artifacts : List ArtifactRef) (uri : String) : Option ArtifactRef :=
  artifacts.reverse.find? fun a => a.uri = uri

/-- Fresh evidence is bound to the reference revision and names current digests only. -/
def isFresh (e : StoredEvidence) (ref : WorkspaceState) : Bool :=
  e.workspaceRevision = ref.workspaceRevision &&
    e.artifacts.all fun a => (currentArtifact ref.artifacts a.uri).map ArtifactRef.digest =
      some a.digest

namespace GateInput

variable (input : GateInput)

def scopedEvidence : List StoredEvidence :=
  input.evidence.filter fun e => e.runId = input.run.runId && e.targetId = input.target.id

def executors : List String :=
  let mine := input.scopedEvidence.filter fun e => e.attemptId = input.attempt.id
  ((mine.map fun e => e.executorIdentity) ++ input.executorIdentity.toList).filter (· ≠ "")

def reference : Option WorkspaceState :=
  input.current.or (referenceState input.scopedEvidence input.attempt.id)

def considered : List StoredEvidence :=
  input.scopedEvidence.filter fun e =>
    e.attemptId = input.attempt.id && e.graphRevision = input.run.graphRevision

def fresh : List StoredEvidence :=
  match input.reference with
  | some ref => input.considered.filter fun e => isFresh e ref
  | none => []

def independent (e : StoredEvidence) : Bool := !isSelfReport e input.executors

def countsAsPass (options : GateOptions) (e : StoredEvidence) : Bool :=
  e.verdict = "PASS" && input.independent e &&
    (e.validationMethod ∈ deterministicMethods ||
      -- a signer is attributable by any identity that is not blank
      e.validationMethod ∈ humanMethods && (trim e.validatorIdentity ≠ "" ||
        e.validationMethod = "human-signoff" && e.validatorIdentity.startsWith "user:") ||
      e.validationMethod = "adversarial-review" && options.acceptReviewerPass)

def criterionVerdict (options : GateOptions) (criterion : String) : GateCriterion :=
  let mine := input.fresh.filter fun e =>
    resolveCriterion input.target.acceptance e.criterion = some criterion
  let fails := mine.filter fun e => e.verdict = "FAIL"
  let passes := mine.filter (input.countsAsPass options)
  let unknown := mine.filter fun e => e.verdict = "UNKNOWN" || e.verdict = "PASS"
  if fails ≠ [] then ⟨criterion, "FAIL", fails.map fun e => e.id⟩
  else if passes ≠ [] then ⟨criterion, "PASS", passes.map fun e => e.id⟩
  else if unknown ≠ [] then ⟨criterion, "UNKNOWN", unknown.map fun e => e.id⟩
  else ⟨criterion, "NOT_RUN", mine.map fun e => e.id⟩

def perCriterion (options : GateOptions) : List GateCriterion :=
  input.target.acceptance.map (input.criterionVerdict options)

def currentAttemptId : Option TargetAttemptId :=
  (input.run.targets.lookup input.target.id).bind TargetLedgerEntry.lastAttemptId

def isStaleAttempt : Bool := input.currentAttemptId.any fun id => id ≠ input.attempt.id

def decidedAt : Timestamp :=
  ((sortBy byTime input.considered).getLast?.map fun e => e.createdAt).getD
    (input.attempt.endedAt.getD input.attempt.startedAt)

end GateInput

/-! Artifacts. -/

/-- `/^sha256:[0-9a-f]{64}$/i` -/
def isSha256Digest (digest : String) : Bool :=
  let cs := toLowerCase digest.toList
  cs.take 7 = "sha256:".toList && (cs.drop 7).length = 64 && digest.toList.length = 71 &&
    (cs.drop 7).all fun c => c.isDigit || ('a' ≤ c && c ≤ 'f')

def trimSlashes (cs : List Char) : List Char := (cs.reverse.dropWhile (· = '/')).reverse

/-- A declared artifact as the gate looks it up. -/
def declaredUri (raw : String) : String :=
  let cs := (trim raw).toList.map fun c => if c = '\\' then '/' else c
  String.ofList (trimSlashes (match cs with
    | '.' :: '/' :: rest => rest
    | cs => cs))

/-- `.replace(/\/$/, '')` -/
def verifiedUri (uri : String) : String :=
  match uri.toList.reverse with
  | '/' :: rest => String.ofList rest.reverse
  | _ => uri

/-- The verified artifact that a declared one is found under. -/
def verifiedArtifact (ref : WorkspaceState) (raw : String) : Option ArtifactRef :=
  ref.artifacts.reverse.find? fun a => verifiedUri a.uri = declaredUri raw

def missingArtifacts (ref : WorkspaceState) (target : GoalTarget) : List String :=
  target.artifacts.filter fun raw => (verifiedArtifact ref raw).isNone

def invalidArtifact (ref : WorkspaceState) (raw : String) : Option String :=
  (verifiedArtifact ref raw).bind fun found =>
    if found.sizeBytes = some 0 then some (raw ++ " (empty)")
    else if !isSha256Digest found.digest then
      some (raw ++ " (invalid digest '" ++ found.digest ++ "')")
    else none

/-! The rules. -/

def note (condition : Prop) [Decidable condition] (reason : String) : List String :=
  if condition then [reason] else []

/-- A prelude of reasons that every decision carries. -/
def GateInput.notices (input : GateInput) : List String :=
  let mine := input.scopedEvidence.filter fun e => e.attemptId = input.attempt.id
  let staleGraph := (mine.filter fun e => e.graphRevision ≠ input.run.graphRevision).length
  let stale := input.considered.length - input.fresh.length
  let others := (input.scopedEvidence.filter fun e => e.attemptId ≠ input.attempt.id).length
  let selfPasses := (input.fresh.filter fun e => e.verdict = "PASS" && !input.independent e).length
  note (input.isStaleAttempt) ("STALE_ATTEMPT: attempt " ++ input.attempt.id ++
      " is superseded by current attempt " ++ input.currentAttemptId.getD "") ++
    note (0 < staleGraph) ("IGNORED_GRAPH_REVISION: " ++ toString staleGraph ++
      " evidence record(s) bound to another graph revision") ++
    note (0 < stale) ("STALE_EVIDENCE: " ++ toString stale ++
      " evidence record(s) not bound to current revision " ++
      (input.reference.map WorkspaceState.workspaceRevision).getD "(none)") ++
    note (0 < others) ("IGNORED_OTHER_ATTEMPTS: " ++ toString others ++
      " evidence record(s) from other attempts") ++
    note (0 < selfPasses) ("SELF_VERIFICATION_REJECTED: " ++ toString selfPasses ++
      " PASS record(s) from the executor itself do not count")

def failureReason (e : StoredEvidence) : String :=
  "FAIL: " ++ e.validationMethod ++
    ((e.criterion.filter (· ≠ "")).map fun c => " [" ++ c ++ "]").getD "" ++
    ((e.command.filter (· ≠ "")).map fun c => " `" ++ c ++ "`").getD "" ++ " (" ++ e.id ++ ")" ++
    (if e.limitations = [] then "" else " — " ++ "; ".intercalate e.limitations)

def GateInput.attemptFailed (input : GateInput) : Bool :=
  input.attempt.outcome = some .failed || input.attempt.outcome = some .cancelled

def GateInput.failureReasons (input : GateInput) : List String :=
  (match input.attempt.outcome with
    | some .failed => ["ATTEMPT_FAILED: executor attempt did not succeed"]
    | some .cancelled => ["ATTEMPT_CANCELLED: executor attempt did not succeed"]
    | _ => []) ++
    (((input.reference.map WorkspaceState.problems).getD []).map fun p =>
      "ARTIFACT_PROBLEM: " ++ p.reason) ++
    (input.fresh.filter fun e => e.verdict = "FAIL").map failureReason

/-- The rules after the first two, against the reference state. -/
def GateInput.decideVerified (input : GateInput) (options : GateOptions) (ref : WorkspaceState) :
    GateDecision × List String :=
  let target := input.target
  let missing := missingArtifacts ref target
  let invalid := target.artifacts.filterMap (invalidArtifact ref)
  let passing := input.fresh.filter (input.countsAsPass options)
  let external := passing.filter fun e => e.validationMethod ∈ humanMethods
  let signoffs := passing.filter fun e => e.validationMethod = "human-signoff"
  let perCriterion := input.perCriterion options
  let unsettled := perCriterion.filter fun c => c.verdict ≠ "PASS"
  if missing ≠ [] then (.repair, ["ARTIFACT_NOT_VERIFIED: " ++ ", ".intercalate missing])
  else if invalid ≠ [] then (.repair, ["ARTIFACT_INVALID_DIGEST: " ++ ", ".intercalate invalid])
  else if target.externalDependency ∧ external = [] then
    (.awaitingExternal, ["AWAITING_EXTERNAL: externalDependency requires a fresh external-record " ++
      "or human-signoff PASS from an attributable principal"])
  else if target.requiresApproval ∧ signoffs = [] then
    (.needsApproval, ["NEEDS_APPROVAL: requiresApproval target has no fresh human-signoff"])
  else if target.acceptance = [] ∧ signoffs = [] then
    (.needsApproval, ["NEEDS_APPROVAL: target declares no acceptance criteria; completion " ++
      "requires a human-signoff"])
  else if unsettled ≠ [] then
    (.repair, unsettled.map fun c => c.verdict ++ ": \"" ++ c.criterion ++
      "\" has no independent PASS evidence for revision " ++ ref.workspaceRevision)
  else
    (.completed, ["COMPLETED: all " ++ toString perCriterion.length ++
      " criteria PASS with independent evidence at " ++ ref.workspaceRevision])

def GateInput.decide (input : GateInput) (options : GateOptions) : GateDecision × List String :=
  let problems := (input.reference.map WorkspaceState.problems).getD []
  if input.isStaleAttempt ∨ input.attemptFailed ∨ (∃ e ∈ input.fresh, e.verdict = "FAIL") ∨
      ¬ problems.isEmpty then
    (.repair, [])
  else match input.reference with
  | none =>
    (.repair, ["NOT_VERIFIED: no checksum evidence for this attempt; run verification"])
  | some ref =>
    if input.fresh = [] then
      (.repair, ["NOT_VERIFIED: no evidence bound to current revision " ++ ref.workspaceRevision])
    else input.decideVerified options ref

def evaluateGate (input : GateInput) (options : GateOptions) : Except Thrown GateVerdict :=
  if input.attempt.runId ≠ input.run.runId ∨ input.attempt.targetId ≠ input.target.id then
    fail .validation ("attempt " ++ input.attempt.id ++ " does not belong to run " ++
      input.run.runId ++ " target " ++ input.target.id)
  else
    let decided := input.decide options
    .ok {
      decision := decided.1
      perCriterion := input.perCriterion options
      reasons := input.notices ++ input.failureReasons ++ decided.2
      runId := input.run.runId
      targetId := input.target.id
      attemptId := input.attempt.id
      decidedAt := input.decidedAt }

end Wazir.Goals
