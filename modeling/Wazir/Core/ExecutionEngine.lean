import Wazir.Async.System
import Wazir.Core.CompletionEvidence
import Wazir.Core.ToolCheckpoints

/-! One execution in the execution engine (`services/executionEngine.ts`): its record, its lease and
the writes on their way to the store. What a method does between two of its awaits is one block. -/

namespace Wazir.Core

open Wazir.Async

structure ToolCallRecord where
  id : String
  callId : Option String
  tool : String
  input : String
  output : Option String
  error : Option String
  ok : Bool
  failureClass : Option String
  policyEffect : PolicyEffect
  policyRule : String
  durationMs : ℕ
  time : ℤ
  /-- The JSON text of the members left over. -/
  details : String
  deriving DecidableEq

/-- `owner` is the process that wrote the record last. -/
structure ExecutionRecord where
  status : ExecutionStatus
  owner : Option ℕ
  inJob : Bool
  acceptance : AcceptanceContract
  revision : ℕ
  events : List ExecutionEvent
  toolCalls : List ToolCallRecord
  filesChanged : List String
  evidence : List VerificationEvidence
  evaluation : Option EvaluationResult
  deriving DecidableEq

/-- `pending` are the snapshots that `persistenceTail` has yet to write, `landed` is how many it has
written. -/
structure ExecutionEngine where
  process : ℕ
  record : ExecutionRecord
  lease : Option ExecutionLease
  persistenceFailure : Option String
  pending : List ExecutionRecord
  landed : ℕ

inductive StaleLease where
  | noLease
  | released
  | epoch
  | worker
  | token
  | expired
  | terminal
  | held
  deriving DecidableEq

inductive EngineError where
  | persistence (message : String)
  | fault (message : String)
  | staleLease (reason : StaleLease)
  | invalidTransition (before after : ExecutionStatus)
  | toolOutcomeUnknown
  | staleRevision (target current : ℕ)
  | verificationRequired (revision : ℕ)
  | alreadyDispatched (callId : String)
  | conflictingResult (callId : String)
  | conflictingEvent (eventId : String)
  | unknownCall (callId : String)
  | alreadyResolved (callId : String) (state : ToolCallState)
  | workerRequired
  deriving DecidableEq

structure LeaseClaimant where
  workerId : Option String := none
  leaseEpoch : Option ℕ := none
  epoch : Option ℕ := none
  leaseToken : Option String := none
  now : Option ℤ := none

structure StatusOptions extends LeaseClaimant where
  targetRevision : Option ℕ := none

/-! The record. -/

namespace ExecutionRecord

def toolCheckpoints (r : ExecutionRecord) : List ToolCallCheckpoint :=
  Core.toolCheckpoints r.events

def facts (r : ExecutionRecord) : CompletionFacts where
  revision := r.revision
  contract := r.acceptance
  evidence := r.evidence
  evaluation := r.evaluation
  filesChanged := r.filesChanged

/-- The next event of the record. -/
def newEvent (r : ExecutionRecord) (now : ℤ) (type : ExecutionEventType)
    (data : ExecutionEventData) (identity : ExecutionEventIdentity) : ExecutionEvent where
  id := match identity.eventId with
    | some id => .given id
    | none => .random r.events.length
  type := type
  timestamp := now
  workspaceRevision := r.revision
  identity := identity
  data := data

/-- `pushEvent` without an event id. -/
def push (r : ExecutionRecord) (now : ℤ) (type : ExecutionEventType) (data : ExecutionEventData)
    (identity : ExecutionEventIdentity := {}) : ExecutionRecord :=
  { r with events := r.events ++ [r.newEvent now type data identity] }

/-- The event that has the id already; an empty id is none. -/
def existing (r : ExecutionRecord) (identity : ExecutionEventIdentity) : Option ExecutionEvent :=
  match identity.eventId with
  | none => none
  | some id => if id = "" then none else r.events.find? (·.id = .given id)

def pushEvent (r : ExecutionRecord) (now : ℤ) (type : ExecutionEventType)
    (data : ExecutionEventData) (identity : ExecutionEventIdentity) :
    Except EngineError ExecutionRecord :=
  match r.existing identity with
  | none => .ok (r.push now type data identity)
  | some event =>
    if event.type = type ∧ event.data = data ∧ event.identity = identity then .ok r
    else .error (.conflictingEvent (identity.eventId.getD ""))

end ExecutionRecord

/-! The lease and the writes. -/

/-- What a block gives, and the engine it leaves. -/
abbrev Ran (α : Type) := Except EngineError α × ExecutionEngine

namespace ExecutionEngine

/-- Go on after a check, or stop with its error. -/
def after {α β : Type} (m : ExecutionEngine) (check : Except EngineError α) (rest : α → Ran β) :
    Ran β :=
  match check with
  | .error e => (.error e, m)
  | .ok a => rest a

def require (m : ExecutionEngine) : Except EngineError Unit :=
  match m.persistenceFailure with
  | some e => .error (.persistence e)
  | none => .ok ()

end ExecutionEngine

def LeaseClaimant.claimedEpoch (c : LeaseClaimant) : Option ℕ := c.leaseEpoch.or c.epoch

def LeaseClaimant.claims (c : LeaseClaimant) : Bool :=
  c.workerId.isSome || c.claimedEpoch.isSome || c.leaseToken.isSome

namespace ExecutionEngine

/-- Why the claim on the lease is refused at `now`. -/
def leaseRefusal (m : ExecutionEngine) (c : LeaseClaimant) (now : ℤ) : Option StaleLease :=
  match m.lease with
  | none => some .noLease
  | some l =>
    if l.released then some .released
    else if c.claimedEpoch.any (· ≠ l.epoch) then some .epoch
    else if c.workerId.any (· ≠ l.workerId) then some .worker
    else if c.leaseToken.any (· ≠ l.token) then some .token
    else if l.expiresAt ≤ now then some .expired
    else none

def assertLease (m : ExecutionEngine) (c : LeaseClaimant) (now : ℤ) (rejectIfTerminal : Bool) :
    Except EngineError Unit :=
  match m.require with
  | .error e => .error e
  | .ok () =>
    if c.claims then
      match m.leaseRefusal c (c.now.getD now) with
      | some reason => .error (.staleLease reason)
      | none =>
        if rejectIfTerminal && m.record.status ∈ terminalExecution then
          .error (.staleLease .terminal)
        else .ok ()
    else .ok ()

/-- The snapshot taken, with the number that its write will have. -/
def flush (m : ExecutionEngine) : Ran ℕ :=
  match m.persistenceFailure with
  | some e => (.error (.persistence e), m)
  | none =>
    let record := { m.record with owner := some m.process }
    (.ok (m.landed + m.pending.length + 1),
      { m with record := record, pending := m.pending ++ [record] })

def withRecord (m : ExecutionEngine) (record : ExecutionRecord) : ExecutionEngine :=
  { m with record := record }

end ExecutionEngine

/-! Status. -/

namespace ExecutionEngine

/-- What a completion is rejected for. -/
def completionRefusal (m : ExecutionEngine) (targetRevision : Option ℕ) : Option EngineError :=
  if m.record.toolCheckpoints.any (·.state.unresolved) then some .toolOutcomeUnknown
  else
    match targetRevision.filter (· ≠ m.record.revision) with
    | some target => some (.staleRevision target m.record.revision)
    | none =>
      if (assessCompletionEvidence m.record.facts).eligible then none
      else some (.verificationRequired m.record.revision)

def statusEventType : ExecutionStatus → ExecutionEventType
  | .running => .assigned
  | .completed => .completed
  | .failed => .failed
  | .cancelled => .cancelled
  | _ => .scheduled

/-- The end of `setStatus`. -/
def writeStatus (m : ExecutionEngine) (status : ExecutionStatus) (now : ℤ) : Ran ℕ :=
  if m.record.status = status ∧ status ∈ terminalExecution then m.flush
  else
    (m.withRecord ({ m.record with status := status }.push now (statusEventType status)
      (.note "status"))).flush

end ExecutionEngine

/-- What the checks of a completion passed on. -/
structure CompletionCheck where
  engine : ExecutionEngine
  options : StatusOptions
  now : ℤ
  lease : engine.assertLease options.toLeaseClaimant now false = .ok ()
  transition : canTransitionExecution engine.record.status .completed = true
  passed : engine.completionRefusal options.targetRevision = none

inductive StatusCheck where
  | rejected (error : EngineError) (ticket : ℕ)
  | written (ticket : ℕ)
  | passed (check : CompletionCheck)

namespace ExecutionEngine

/-- `setStatus` up to the fault hook, or to its end for another status than `completed`. -/
def checkStatus (m : ExecutionEngine) (status : ExecutionStatus) (options : StatusOptions)
    (now : ℤ) : Ran StatusCheck :=
  match hlease : m.assertLease options.toLeaseClaimant now false with
  | .error e => (.error e, m)
  | .ok () =>
    if htransition : canTransitionExecution m.record.status status then
      if hstatus : status = .completed then
        match hpassed : m.completionRefusal options.targetRevision with
        | some e =>
          let ran := (m.withRecord (m.record.push now .completionRejected (.note "reason"))).flush
          (ran.1.map (.rejected e), ran.2)
        | none => (.ok (.passed ⟨m, options, now, hlease, hstatus ▸ htransition, hpassed⟩), m)
      else
        let ran := m.writeStatus status now
        (ran.1.map .written, ran.2)
    else (.error (.invalidTransition m.record.status status), m)

end ExecutionEngine

/-! Tool calls. -/

inductive ResultStep where
  /-- The same result was recorded before. -/
  | repeated (ticket : ℕ)
  | recorded (callId : String) (stepId : Option String)

structure ToolStartOptions extends LeaseClaimant where
  callId : Option String := none
  stepId : Option String := none
  sideEffectClass : Option ToolSideEffectClass := none
  argumentsHash : Option String := none

structure ToolOutcomeInspection where
  outcome : ToolOutcome
  evidence : String

namespace ToolCallRecord

def withOutput (sanitize : String → String) (call : ToolCallRecord) : ToolCallRecord :=
  { call with output := call.output.map sanitize, error := call.error.map sanitize }

/-- The dispatched call that a result belongs to: the one with its id, else the first that was
dispatched without an id, is still running and is of the same tool. -/
def checkpoint (call : ToolCallRecord) (calls : List ToolCallCheckpoint) :
    Option ToolCallCheckpoint :=
  (calls.find? (·.callId = call.callId.getD call.id)).or
    (calls.find? fun c => c.legacyCorrelation && c.state = .started && c.toolName = call.tool &&
      call.policyEffect ≠ .deny && call.policyEffect ≠ .ask)

/-- The call id that the events of a result carry. -/
def resolvedId (call : ToolCallRecord) (checkpoint : Option ToolCallCheckpoint) : String :=
  match checkpoint with
  | some c => c.callId
  | none => call.callId.getD call.id

def resultData (call : ToolCallRecord) (callId : String) : ToolResultData where
  callId := callId
  tool := call.tool
  ok := call.ok
  failureClass := call.failureClass
  policyEffect := some call.policyEffect
  durationMs := some call.durationMs
  reconciled := none

def outcomeType (call : ToolCallRecord) : ExecutionEventType :=
  if call.failureClass = some toolOutcomeUnknown then .toolCallOutcomeUnknown
  else if call.ok then .toolCallCompleted
  else .toolCallFailed

end ToolCallRecord

namespace ExecutionEngine

/-- `recordToolCall` up to the fault hook. -/
def beginResult (m : ExecutionEngine) (sanitize : String → String) (call : ToolCallRecord)
    (claimant : LeaseClaimant) (now : ℤ) : Ran ResultStep :=
  m.after (m.assertLease claimant now true) fun _ =>
    let checkpoint := call.checkpoint m.record.toolCheckpoints
    let callId := call.resolvedId checkpoint
    match m.record.toolCalls.find? (·.id = call.id) with
    | some prior =>
      if prior = call.withOutput sanitize then
        let ran := m.flush
        (ran.1.map .repeated, ran.2)
      else (.error (.conflictingResult callId), m)
    | none =>
      (.ok (.recorded callId (checkpoint.map (·.stepId))),
        m.withRecord { m.record with
          toolCalls := m.record.toolCalls ++ [call.withOutput sanitize] })

/-- The rest of `recordToolCall`. -/
def pushResult (m : ExecutionEngine) (call : ToolCallRecord) (callId : String)
    (stepId : Option String) (now : ℤ) : Ran ℕ :=
  let identity : ExecutionEventIdentity := { callId := some callId, stepId := stepId }
  let data := call.resultData callId
  (m.withRecord ((m.record.push now .toolCompleted (.result data) identity).push now
    call.outcomeType (.result { data with policyEffect := none }) identity)).flush

/-- `recordToolStart` up to the fault hook. -/
def beginStart (m : ExecutionEngine) (options : ToolStartOptions) (uuid : String) (now : ℤ) :
    Ran String :=
  m.after (m.assertLease options.toLeaseClaimant now true) fun _ =>
    (.ok (options.callId.getD ("call-" ++ uuid)), m)

def newCheckpoint (m : ExecutionEngine) (hash : String → String) (tool input callId : String)
    (options : ToolStartOptions) (now : ℤ) : ToolCallCheckpoint where
  stepId := options.stepId.getD callId
  callId := callId
  toolName := tool
  input := input
  argumentsHash := options.argumentsHash.getD (hash input)
  startedAt := now
  finishedAt := none
  state := .started
  sideEffectClass := options.sideEffectClass.getD .nonIdempotentWrite
  workspaceRevision := m.record.revision
  legacyCorrelation := options.callId.isNone

/-- The rest of `recordToolStart`. -/
def dispatch (m : ExecutionEngine) (hash : String → String) (tool input callId : String)
    (options : ToolStartOptions) (now : ℤ) : Ran ℕ :=
  let calls := m.record.toolCheckpoints
  if calls.any (·.callId = callId) then (.error (.alreadyDispatched callId), m)
  else if options.sideEffectClass ≠ some .readOnly && calls.any (·.unresolvedWrite) then
    (.error .toolOutcomeUnknown, m)
  else
    let call := m.newCheckpoint hash tool input callId options now
    let identity : ExecutionEventIdentity := { callId := some callId, stepId := some call.stepId }
    (m.withRecord ((m.record.push now .toolStarted (.dispatch call) identity).push now
      .toolCallStarted (.dispatch call) identity)).flush

def reconciledIdentity (call : ToolCallCheckpoint) (eventId : String) : ExecutionEventIdentity where
  eventId := some eventId
  callId := some call.callId
  stepId := some call.stepId

def reconciledData (call : ToolCallCheckpoint) (proof : Reconciliation) : ToolResultData where
  callId := call.callId
  tool := call.toolName
  ok := proof.outcome = .applied
  failureClass := none
  policyEffect := none
  durationMs := none
  reconciled := some proof

/-- The two events of a reconciled call; the second may still be refused. -/
def pushReconciled (m : ExecutionEngine) (call : ToolCallCheckpoint) (proof : Reconciliation)
    (now : ℤ) : Ran ℕ :=
  let data := ExecutionEventData.result (reconciledData call proof)
  m.after (m.record.pushEvent now .toolCompleted data
      (reconciledIdentity call (call.callId ++ ":reconciled"))) fun first =>
    (m.withRecord first).after (first.pushEvent now
        (if proof.outcome = .applied then .toolCallCompleted else .toolCallFailed) data
        (reconciledIdentity call (call.callId ++ ":reconciled:call"))) fun second =>
      (m.withRecord second).flush

def reconcileToolCall (m : ExecutionEngine) (callId : String) (inspection : ToolOutcomeInspection)
    (inspectedBy : String) (now : ℤ) : Ran ℕ :=
  m.after m.require fun _ =>
    match m.record.toolCheckpoints.find? (·.callId = callId) with
    | none => (.error (.unknownCall callId), m)
    | some call =>
      if !call.state.unresolved then (.error (.alreadyResolved callId call.state), m)
      else if inspection.outcome = .undetermined then (.error .toolOutcomeUnknown, m)
      else m.pushReconciled call ⟨inspection.outcome, inspection.evidence, inspectedBy⟩ now

end ExecutionEngine

/-! Files, evidence and evaluations. -/

structure EvidenceInput where
  oracle : EvidenceType
  workspaceRevision : Option ℕ
  revision : Option ℕ
  command : Option String
  exitCode : ℤ
  status : Option VerificationStatus
  metadata : EvidenceMetadata

/-- `boundRev` -/
def EvidenceInput.bound (e : EvidenceInput) (current : ℕ) : ℕ :=
  (e.workspaceRevision.or e.revision).getD current

inductive CheckName where
  | test
  | lint
  | typecheck
  | build
  deriving DecidableEq

structure CheckRunRecord where
  workspaceRevision : Option ℕ
  name : CheckName
  command : String
  ok : Bool

/-- An evaluation as the caller hands it in. -/
structure EvaluationInput where
  success : Bool
  workspaceRevision : Option ℕ

def CheckName.evidenceType : CheckName → EvidenceType
  | .build => .build
  | .test => .test
  | .lint => .staticCheck
  | .typecheck => .staticCheck

/-- The event that tells of a build or a test run. -/
def ExecutionRecord.pushRun (r : ExecutionRecord) (now : ℤ) (type : EvidenceType) :
    ExecutionRecord :=
  match type with
  | .build => r.push now .buildCompleted (.note "build")
  | .test => r.push now .testCompleted (.note "test")
  | _ => r

namespace ExecutionEngine

/-- The checks of a method that goes on after an await, and the revision it finds. -/
def assertLive (m : ExecutionEngine) (claimant : LeaseClaimant) (now : ℤ) : Ran ℕ :=
  m.after (m.assertLease claimant now true) fun _ => (.ok m.record.revision, m)

def fileChanged (now : ℤ) (r : ExecutionRecord) (file : String) : ExecutionRecord :=
  { r with filesChanged := if file ∈ r.filesChanged then r.filesChanged
      else r.filesChanged ++ [file] }.push now .fileChanged (.note file)

def staleEvidence (now : ℤ) (r : ExecutionRecord) : ExecutionRecord :=
  if r.evidence.any (·.workspaceRevision < r.revision) then
    (r.push now .verificationInvalidated (.note "revision")).push now .evidenceStale
      (.note "revision")
  else r

/-- `recordFilesChanged` after its fault hook: the new revision and what tells of it. -/
def changedFiles (r : ExecutionRecord) (files : List String) (mutated : Bool) (now : ℤ) :
    ExecutionRecord :=
  let r := { r with revision := r.revision + 1 }
  let r := if mutated then r.push now .workspaceMutated (.note "mutations") else r
  staleEvidence now (((files.foldl (fileChanged now) r).push now .revisionChanged
    (.note "files")).push now .workspaceRevisionChanged (.note "files"))

/-- The write follows at once, unless artifacts are registered first. -/
def changeFiles (m : ExecutionEngine) (files : List String) (mutated registers : Bool) (now : ℤ) :
    Ran (Option ℕ) :=
  let m := m.withRecord (changedFiles m.record files mutated now)
  if registers then (.ok none, m)
  else (m.flush.1.map some, m.flush.2)

/-- `recordEvidence` after its fault hook. -/
def recordEvidence (m : ExecutionEngine) (e : EvidenceInput) (bound : ℕ) (now : ℤ) : Ran ℕ :=
  let item : VerificationEvidence :=
    { oracle := e.oracle, workspaceRevision := bound, command := e.command, exitCode := e.exitCode
      status := some (e.status.getD (if e.exitCode = 0 then .pass else .fail))
      metadata := e.metadata, recordedAt := m.record.events.length }
  (m.withRecord ({ m.record with evidence := m.record.evidence ++ [item] }.pushRun now
    e.oracle)).flush

def checkEvidence (r : ExecutionRecord) (check : CheckRunRecord) : VerificationEvidence where
  oracle := check.name.evidenceType
  workspaceRevision := check.workspaceRevision.getD r.revision
  command := some check.command
  exitCode := if check.ok then 0 else 1
  status := some (if check.ok then .pass else .fail)
  metadata := {}
  recordedAt := r.events.length

def recordCheck (m : ExecutionEngine) (check : CheckRunRecord) (claimant : LeaseClaimant) (now : ℤ) :
    Ran ℕ :=
  m.after (m.assertLease claimant now true) fun _ =>
    let r := m.record.push now .checkCompleted (.note "check")
    (m.withRecord ({ r with evidence := r.evidence ++ [checkEvidence r check] }.pushRun now
      check.name.evidenceType)).flush

/-- The write follows at once, unless artifacts are registered first. -/
def setEvaluation (m : ExecutionEngine) (e : EvaluationInput) (claimant : LeaseClaimant)
    (registers : Bool) (now : ℤ) : Ran (Option ℕ) :=
  m.after (m.assertLease claimant now true) fun _ =>
    let evaluation : EvaluationResult := ⟨e.success, e.workspaceRevision, m.record.events.length⟩
    let m := m.withRecord ({ m.record with evaluation := some evaluation }.push now
      .evaluationCompleted (.note "evaluation"))
    if registers then (.ok none, m)
    else (m.flush.1.map some, m.flush.2)

end ExecutionEngine

/-! Leases, steering and the other ways to another status. -/

structure SteeringParams where
  changeModelRouting : Bool
  forceReverification : Bool

/-- The events that callers record themselves. -/
inductive RecordedEvent where
  | resumed
  | other (name : String)

def RecordedEvent.type : RecordedEvent → ExecutionEventType
  | .resumed => .resumed
  | .other name => .other name

/-- A failed execution that is resumed is queued again. -/
def ExecutionRecord.requeued (r : ExecutionRecord) : RecordedEvent → ExecutionRecord
  | .resumed => if r.status = .failed then { r with status := .queued } else r
  | .other _ => r

def ExecutionRecord.clearEvidence (r : ExecutionRecord) : ExecutionRecord :=
  { r with evidence := [] }

structure RenewOptions where
  leaseEpoch : Option ℕ
  leaseToken : Option String
  ttlMs : Option ℤ
  now : Option ℤ

def RenewOptions.claimant (options : RenewOptions) (workerId : String) (start : ℤ) :
    LeaseClaimant where
  workerId := some workerId
  leaseEpoch := options.leaseEpoch
  leaseToken := options.leaseToken
  now := some start

namespace ExecutionEngine

def defaultTtlMs : ℤ := 30000

def recordEvent (m : ExecutionEngine) (event : RecordedEvent) (json : String)
    (identity : ExecutionEventIdentity) (claimant : LeaseClaimant) (now : ℤ) : Ran ℕ :=
  m.after (m.assertLease claimant now true) fun _ =>
    let r := m.record.requeued event
    (m.withRecord r).after (r.pushEvent now event.type (.note json) identity) fun r =>
      (m.withRecord r).flush

def orphan (m : ExecutionEngine) (now : ℤ) : Ran (Option ℕ) :=
  m.after m.require fun _ =>
    if !canTransitionExecution m.record.status .failed then
      (.error (.invalidTransition m.record.status .failed), m)
    else if m.record.status = .failed then (.ok none, m)
    else
      let ran := (m.withRecord ({ m.record with status := .failed }.push now .failed
        (.note "ORPHANED_WORKER_UNREACHABLE"))).flush
      (ran.1.map some, ran.2)

def acquireLease (m : ExecutionEngine) (workerId : String) (ttlMs start : Option ℤ)
    (uuid : String) (now : ℤ) : Ran (ExecutionLease × ℕ) :=
  m.after m.require fun _ =>
    let start := start.getD now
    if workerId = "" then (.error .workerRequired, m)
    else if m.record.status ∈ terminalExecution then (.error (.staleLease .terminal), m)
    else if m.lease.any fun l => !l.released && start < l.expiresAt && l.workerId ≠ workerId then
      (.error (.staleLease .held), m)
    else
      let ttl := ttlMs.getD defaultTtlMs
      let lease : ExecutionLease :=
        { workerId := workerId, epoch := (m.lease.map (·.epoch)).getD 0 + 1, token := uuid
          acquiredAt := start, renewedAt := start, expiresAt := start + ttl, ttlMs := ttl
          released := false }
      let ran := ({ m with
        lease := some lease, record := m.record.push now .leaseAcquired (.lease lease) }).flush
      (ran.1.map fun ticket => (lease, ticket), ran.2)

/-- Put the changed lease in place, with the event that tells of it. -/
def putLease (m : ExecutionEngine) (lease : ExecutionLease) (type : ExecutionEventType) (now : ℤ) :
    Ran (ExecutionLease × ℕ) :=
  let ran := ({ m with
    lease := some lease, record := m.record.push now type (.lease lease) }).flush
  (ran.1.map fun ticket => (lease, ticket), ran.2)

def renewLease (m : ExecutionEngine) (workerId : String) (options : RenewOptions) (now : ℤ) :
    Ran (ExecutionLease × ℕ) :=
  let start := options.now.getD now
  m.after (m.assertLease (options.claimant workerId start) now true) fun _ =>
    match m.lease with
    | none => (.error (.staleLease .noLease), m)
    | some l =>
      let ttl := options.ttlMs.getD l.ttlMs
      m.putLease { l with renewedAt := start, expiresAt := start + ttl, ttlMs := ttl } .leaseRenewed
        now

def releaseLease (m : ExecutionEngine) (workerId : String) (options : RenewOptions) (now : ℤ) :
    Ran (ExecutionLease × ℕ) :=
  let start := options.now.getD now
  m.after (m.assertLease (options.claimant workerId start) now false) fun _ =>
    match m.lease with
    | none => (.error (.staleLease .noLease), m)
    | some l => m.putLease { l with released := true, expiresAt := start } .leaseReleased now

/-- `pause` and `resume`. -/
def moveTo (m : ExecutionEngine) (status : ExecutionStatus) (type : ExecutionEventType) (now : ℤ) :
    Ran ℕ :=
  m.after m.require fun _ =>
    if canTransitionExecution m.record.status status then
      (m.withRecord ({ m.record with status := status }.push now type (.note "operator"))).flush
    else (.error (.invalidTransition m.record.status status), m)

def pause (m : ExecutionEngine) (now : ℤ) : Ran ℕ := m.moveTo .paused .paused now

def resume (m : ExecutionEngine) (now : ℤ) : Ran ℕ := m.moveTo .running .resumed now

def steer (m : ExecutionEngine) (params : SteeringParams) (now : ℤ) : Ran ℕ :=
  m.after m.require fun _ =>
    let r := if params.changeModelRouting then
      m.record.push now .modelRouteChanged (.note "model") else m.record
    let r := if params.forceReverification then
      (r.push now .verificationInvalidated (.note "steered")).clearEvidence else r
    (m.withRecord (r.push now .steered (.note "steered"))).flush

end ExecutionEngine

/-! Starting up on a stored record. -/

/-- Who wrote the record last, as a new process finds out. -/
inductive OwnerView where
  | own
  | remote
  | alive
  | dead
  deriving DecidableEq

def interruptible : List ExecutionStatus := [.assigned, .running, .waiting]

/-- One step of `reconstructLeaseFromEvents`; `stored` is what a stored date reads back as. -/
def leaseAfter (stored : ℤ → ℤ) (current : Option ExecutionLease) (event : ExecutionEvent) :
    Option ExecutionLease :=
  match event.type, event.data with
  | .leaseReleased, .lease l =>
    some { l with
      acquiredAt := (current.map (·.acquiredAt)).getD event.timestamp, renewedAt := event.timestamp
      expiresAt := event.timestamp, ttlMs := (current.map (·.ttlMs)).getD ExecutionEngine.defaultTtlMs
      released := true }
  | .leaseAcquired, .lease l | .leaseRenewed, .lease l =>
    some { l with
      acquiredAt := stored l.acquiredAt, renewedAt := stored l.renewedAt
      expiresAt := stored l.expiresAt, released := false }
  | _, _ => current

def reconstructLease (stored : ℤ → ℤ) (log : List ExecutionEvent) : Option ExecutionLease :=
  log.foldl (leaseAfter stored) none

/-- The engine of a new process, with the record it loaded. -/
def loadedEngine (stored : ℤ → ℤ) (process : ℕ) (record : ExecutionRecord)
    (failure : Option String) : ExecutionEngine where
  process := process
  record := record
  lease := reconstructLease stored record.events
  persistenceFailure := failure
  pending := []
  landed := 0

namespace ExecutionEngine

/-- The owner as the engine's process sees it. -/
def ownerView (m : ExecutionEngine) (view : OwnerView) : OwnerView :=
  if m.record.owner = some m.process then .own else view

def unknownData (call : ToolCallCheckpoint) : ToolResultData where
  callId := call.callId
  tool := call.toolName
  ok := false
  failureClass := some toolOutcomeUnknown
  policyEffect := none
  durationMs := none
  reconciled := none

def pushUnknown (now : ℤ) (r : ExecutionRecord) (call : ToolCallCheckpoint) : ExecutionRecord :=
  let identity : ExecutionEventIdentity :=
    { callId := some call.callId, stepId := some call.stepId }
  (r.push now .toolUnknownOutcome (.result (unknownData call)) identity).push now
    .toolCallOutcomeUnknown (.result (unknownData call)) identity

/-- Startup recovery of a record that no other live process works on. -/
def recovered (r : ExecutionRecord) (view : OwnerView) (now : ℤ) : ExecutionRecord :=
  let r := (r.toolCheckpoints.filter (·.state = .started)).foldl (pushUnknown now) r
  if r.status ∈ interruptible ∧ view = .dead then
    { r with status := .failed }.push now .failed (.note "OWNER_PROCESS_EXITED")
  else r

def recover (m : ExecutionEngine) (fastStartup : Bool) (view : OwnerView) (now : ℤ) :
    Ran (Option ℕ) :=
  let view := m.ownerView view
  if fastStartup ∨ view = .alive then (.ok none, m)
  else
    let r := recovered m.record view now
    if r.events = m.record.events then (.ok none, m)
    else
      let ran := (m.withRecord r).flush
      (ran.1.map some, ran.2)

/-- The unresolved calls that `reconcileLocalOutcomes` goes through; none when another live process
has the execution. -/
def survey (m : ExecutionEngine) (view : OwnerView) : Ran (Option (List ToolCallCheckpoint)) :=
  if m.ownerView view = .alive then (.ok none, m)
  else
    m.after m.require fun _ =>
      (.ok (some (m.record.toolCheckpoints.filter (·.state.unresolved))), m)

def activeStandaloneStatuses : List ExecutionStatus := [.running, .scheduled, .waiting, .assigned]

/-- Fail an execution outside of jobs whose process is gone. -/
def orphanStranded (m : ExecutionEngine) (view : OwnerView) (now : ℤ) : Ran (Option ℕ) :=
  if !m.record.inJob ∧ m.record.status ∈ activeStandaloneStatuses ∧
      (m.ownerView view = .dead ∨ m.ownerView view = .remote) then m.orphan now
  else (.ok none, m)

end ExecutionEngine

end Wazir.Core
