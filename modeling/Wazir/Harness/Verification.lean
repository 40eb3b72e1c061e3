import Wazir.Async.Ways
import Wazir.Core.ExecutionSystem
import Wazir.Harness.Attempts

/-! What `dispatch` does after its last attempt (`services/harnessDispatchService.ts`): it verifies what
the harness left, settles the result and records it in the execution engine, whose refusals it
swallows. The verification callback and the verification engine are open. -/

namespace Wazir.Harness

open Wazir.Core Wazir.Core.EngineProg Async

/-! Paths. -/

/-- What is left of a path without `.`, `..` and spare slashes. -/
structure NormalPath where
  absolute : Bool
  names : List (List Char)
  deriving DecidableEq

def addName (absolute : Bool) (names : List (List Char)) (name : List Char) : List (List Char) :=
  if name = [] ∨ name = ['.'] then names
  else if name = ['.', '.'] then
    match names.getLast? with
    | none => if absolute then [] else [name]
    | some last => if last = ['.', '.'] then names ++ [name] else names.dropLast
  else names ++ [name]

def normalPath (path : String) : NormalPath :=
  let absolute := path.toList.head? = some '/'
  ⟨absolute, (path.toList.splitOn '/').foldl (addName absolute) []⟩

/-- The file is the protected path, or lies in it. -/
def Inside (protectedPath file : String) : Prop :=
  (normalPath protectedPath).absolute = (normalPath file).absolute ∧
    (normalPath protectedPath).names <+: (normalPath file).names

instance (protectedPath file : String) : Decidable (Inside protectedPath file) :=
  inferInstanceAs (Decidable (_ ∧ _))

/-- `s === path || s.endsWith('/' + path)` -/
def endsInPath (path s : String) : Bool := s = path || ('/' :: path.toList).isSuffixOf s.toList

/-- What the verification takes for a protected path that was changed: the first that matches, unless
it is empty, as it is tested for its truth. -/
def hitsProtected (protectedPaths : List String) (changed : String) : Bool :=
  (protectedPaths.find? fun p => endsInPath p (slashed changed) ||
    (p.toList ++ ['/']).isPrefixOf (slashed changed).toList).any (· ≠ "")

/-! The verification. -/

/-- What the verification reads of a request. -/
structure VerificationRequest where
  requiredChecks : List String
  protectedPaths : List String
  mutationRequired : Bool
  expectedArtifacts : List String

/-- The result of the last attempt, as far as its verification and its record use it. -/
structure FinalResult where
  status : UnifiedExecutionStatus
  verified : Bool
  terminationReason : Option TerminationReason
  errorKind : Option AgentErrorKind
  failureClassification : Option String
  filesChanged : List String
  artifacts : List String
  toolCalls : List ToolCallRecord
  checks : List CheckRunRecord
  usage : Bool
  output : String
  errors : List String

structure HarnessVerificationOutcome where
  verified : Bool
  checks : Option (List CheckRunRecord) := none
  evidence : Option (List EvidenceInput) := none
  reasons : List String

/-- What the verification engine finds in the workspace. -/
structure VerificationEngine where
  filesChanged : List String
  /-- The evidence of an oracle's run, if there is such an oracle. -/
  runOracle : EvidenceType → String → Option EvidenceInput
  active : List EvidenceInput
  complete : Bool
  reasons : List String

structure Verifier where
  verifyExecutionCallback : Option HarnessVerificationOutcome
  verificationEngine : Option VerificationEngine

def normalizeOracleCheck (check : String) : EvidenceType :=
  let upper := (trim check).toUpper
  let includes := fun name : String => decide (name.toList <:+: upper.toList)
  if includes "BUILD" then .build
  else if includes "TEST" then .test
  else if includes "LINT" then .lint
  else if includes "TYPECHECK" || upper = "TSC" then .typecheck
  else if upper = "STATIC_ANALYSIS" || upper = "STATIC" then .staticAnalysis
  else if upper = "STATIC_CHECK" then .staticCheck
  else if upper = "ACCEPTANCE" then .acceptance
  else if upper = "BROWSER" then .browser
  else .run

def refused (reason : String) : HarnessVerificationOutcome := { verified := false, reasons := [reason] }

namespace Verifier

def engineFilesChanged (v : Verifier) : List String := (v.verificationEngine.map (·.filesChanged)).getD []

/-- The first expected artifact that is among neither the changed files nor the artifacts. -/
def missingArtifact (v : Verifier) (request : VerificationRequest) (result : FinalResult) :
    Option String :=
  let changedSet := (result.filesChanged ++ result.artifacts ++ v.engineFilesChanged).map slashed
  request.expectedArtifacts.find? fun expected => !changedSet.any (endsInPath (slashed expected))

/-- The pipeline of the verification engine. -/
def pipeline (engine : VerificationEngine) (request : VerificationRequest) :
    HarnessVerificationOutcome :=
  let collected := request.requiredChecks.filterMap fun check =>
    engine.runOracle (normalizeOracleCheck check) check
  { verified := engine.complete
    evidence := some (if collected = [] then engine.active else collected)
    reasons := engine.reasons }

/-- Without a callback or an engine only the checks that the harness reports are there. -/
def reported (request : VerificationRequest) (result : FinalResult) : HarnessVerificationOutcome :=
  if request.requiredChecks = [] then
    let allChecksPass := result.checks.all (·.ok)
    { verified := allChecksPass
      checks := some result.checks
      reasons := [if allChecksPass then
        "No external verification checks required; apparent completion verified"
        else "Harness check reported failure"] }
  else refused ("Required checks (" ++ ", ".intercalate request.requiredChecks ++
    ") could not be verified: no VerificationEngine or verifyExecution callback configured")

def runIndependentVerification (v : Verifier) (request : VerificationRequest)
    (result : FinalResult) : HarnessVerificationOutcome :=
  if result.status ≠ .completed then
    refused ("Harness status is '" ++ result.status.text ++ "', cannot verify incomplete execution")
  else
    match result.filesChanged.find? (hitsProtected request.protectedPaths) with
    | some changed =>
      refused ("PROTECTED_PATH_VIOLATION: Harness modified protected path '" ++ changed ++ "'")
    | none =>
      if request.mutationRequired ∧ result.filesChanged = [] ∧ v.engineFilesChanged = [] then
        refused "MUTATION_REQUIRED: Task requires physical file mutation but no files were changed"
      else
        match v.missingArtifact request result with
        | some expected =>
          refused ("EXPECTED_ARTIFACT_MISSING: Expected artifact '" ++ expected ++
            "' was not produced")
        | none =>
          match v.verifyExecutionCallback, v.verificationEngine with
          | some outcome, _ => outcome
          | none, some engine => pipeline engine request
          | none, none => reported request result

end Verifier

/-- What the verification makes of the result. -/
def FinalResult.settled (result : FinalResult) (outcome : HarnessVerificationOutcome) : FinalResult :=
  let checks := result.checks ++ outcome.checks.getD []
  if result.status = .completed then
    if outcome.verified then
      { result with
        verified := true
        terminationReason := result.terminationReason.or (some .verificationPassed)
        checks := checks }
    else
      { result with
        verified := false
        status := .failed
        terminationReason := some .verificationFailed
        errorKind := some .verification
        failureClassification := some "VERIFICATION_FAILED"
        errors := result.errors ++ outcome.reasons
        checks := checks }
  else { result with verified := false, checks := checks }

/-! The record. -/

/-- What the recording does: a command of the engine, or a look at the live record. -/
inductive RecordingOp where
  | engine (op : EngineOp)
  | record

abbrev RecordingOp.Res : RecordingOp → Type
  | .engine op => op.Res
  | .record => ExecutionRecord

abbrev RecordingProg (α : Type) := Prog RecordingOp RecordingOp.Res EngineError α

namespace RecordingProg

def engine {α : Type} (p : EngineProg α) : RecordingProg α := p.lift .engine fun _ r => r

def liveRecord : RecordingProg ExecutionRecord := .call .record .ret

def engineIf (c : Prop) [Decidable c] (p : EngineProg Unit) : RecordingProg Unit :=
  if c then engine p else pure ()

/-- One after the other. -/
def forAll {α : Type} (record : α → EngineProg Unit) : List α → RecordingProg Unit
  | [] => pure ()
  | a :: rest => do
    engine (record a)
    forAll record rest

/-- `recordUsage`, `setResult` and `recordError`: what they change of the record is left out. -/
def noted : EngineProg Unit := do
  let _ ← block (.assertLive {})
  written (← block .flush)

def recordCheckAt (rev : ℕ) (check : CheckRunRecord) : EngineProg Unit := do
  written (← block (.recordCheck { check with workspaceRevision := some rev } {}))

def recordEvidenceAt (rev : ℕ) (e : EvidenceInput) : EngineProg Unit :=
  recordEvidence { e with workspaceRevision := some rev, revision := some rev } {}

/-- The evidence that stands for a required check which was verified without any. -/
def requiredEvidence (rev : ℕ) (check : String) : EvidenceInput where
  oracle := normalizeOracleCheck check
  workspaceRevision := some rev
  revision := some rev
  command := some check
  exitCode := 0
  status := some .pass
  metadata := {}

/-- The facts of the outcome, at the revision that the engine is at. -/
def recordFacts (request : VerificationRequest) (result : FinalResult)
    (outcome : HarnessVerificationOutcome) (rev : ℕ) : RecordingProg Unit := do
  forAll (recordCheckAt rev) (outcome.checks.getD result.checks)
  forAll (recordEvidenceAt rev) (outcome.evidence.getD [])
  if outcome.verified ∧ outcome.evidence.getD [] = [] then
    forAll (fun check => recordEvidence (requiredEvidence rev check) {}) request.requiredChecks

def recordOutput (result : FinalResult) : RecordingProg Unit := do
  engineIf result.usage noted
  engineIf (result.output ≠ "") noted
  forAll (fun _ => noted) result.errors

def recordStatus (result : FinalResult) (rev : ℕ) : EngineProg Unit :=
  if result.status = .cancelled then setStatus .cancelled {}
  else if result.status = .completed ∧ result.verified then
    setStatus .completed { targetRevision := some rev }
  else setStatus .failed {}

/-- The body of its `try`. -/
def recordOutcomeToExecutionEngine (request : VerificationRequest) (result : FinalResult)
    (outcome : HarnessVerificationOutcome) : RecordingProg Unit := do
  let record ← liveRecord
  engineIf (record.status = .queued ∨ record.status = .scheduled) (setStatus .running {})
  forAll (recordToolCall · {}) result.toolCalls
  let record ← liveRecord
  let newFiles := result.filesChanged.filter (· ∉ record.filesChanged)
  engineIf (newFiles ≠ []) (recordFilesChanged newFiles false {})
  let rev ← engine (block .getWorkspaceRevision)
  recordFacts request result outcome rev
  recordOutput result
  engine (setEvaluation ⟨result.verified, some rev⟩ {})
  engine (recordStatus result rev)

end RecordingProg

/-! The end of a dispatch, among everything else that happens to the execution. -/

inductive EndPhase where
  | verifying
  /-- What is left of the recording. -/
  | recording (rest : RecordingProg Unit)

/-- `world` is there if an execution engine is configured. -/
structure DispatchEnd where
  phase : EndPhase
  result : FinalResult
  outcome : Option HarnessVerificationOutcome
  world : Option ExecutionWorld

inductive DispatchEndEvent where
  | verified (verifier : Verifier)
  | next (inp : EngineInput)
  | others (op : EngineOp) (inp : EngineInput)

namespace DispatchEnd

/-- The dispatch returns whether the recording ends or throws. -/
def returned (s : DispatchEnd) : Bool :=
  match s.phase with
  | .recording (.ret _) | .recording (.raise _) => true
  | _ => false

/-- The record of the dispatch in the engine. -/
def record (s : DispatchEnd) : Option ExecutionRecord :=
  (s.world.bind (·.engine)).map (·.record)

def step (host : EngineHost) (request : VerificationRequest) (s : DispatchEnd)
    (e : DispatchEndEvent) : Option DispatchEnd :=
  match e, s.phase, s.world with
  | .verified verifier, .verifying, _ =>
    let outcome := verifier.runIndependentVerification request s.result
    let result := s.result.settled outcome
    some { s with
      phase := .recording (if s.world.isNone then .ret ()
        else RecordingProg.recordOutcomeToExecutionEngine request result outcome)
      result := result
      outcome := some outcome }
  | .next _, .recording (.call .record next), some _ =>
    s.record.map fun r => { s with phase := .recording (next r) }
  | .next inp, .recording (.call (.engine op) next), some w =>
    (engineExec host op inp w).map fun (r, w) =>
      { s with phase := .recording (next r), world := some w }
  | .others op inp, _, some w =>
    (engineExec host op inp w).map fun (_, w) => { s with world := some w }
  | _, _, _ => none

/-- After the last attempt. -/
def attempted (result : FinalResult) (world : Option ExecutionWorld) : DispatchEnd where
  phase := .verifying
  result := { result with verified := false }
  outcome := none
  world := world

end DispatchEnd

end Wazir.Harness
