import Wazir.Async.System
import Wazir.Core.ExecutionEngine

/-! The methods of the execution engine as procedures over their blocks, with recovery after a
restart (`services/executionRecovery.ts`), on one execution. Its processes come one after the other:
the next one starts up when the last one has crashed. -/

namespace Wazir.Core

open Wazir.Async

inductive EngineBlock where
  | recover (fastStartup : Bool)
  | checkStatus (status : ExecutionStatus) (options : StatusOptions)
  /-- The rest of `setStatus` after the fault hook of a completion. -/
  | complete (check : CompletionCheck)
  | beginResult (call : ToolCallRecord) (claimant : LeaseClaimant)
  | pushResult (call : ToolCallRecord) (callId : String) (stepId : Option String)
  | beginStart (options : ToolStartOptions)
  | dispatch (tool input callId : String) (options : ToolStartOptions)
  | reconcile (callId : String) (inspection : ToolOutcomeInspection) (inspectedBy : String)
  | assertLive (claimant : LeaseClaimant)
  | changeFiles (files : List String) (mutated : Bool)
  | flush
  | recordEvidence (e : EvidenceInput) (bound : ℕ)
  | recordCheck (check : CheckRunRecord) (claimant : LeaseClaimant)
  | setEvaluation (e : EvaluationInput) (claimant : LeaseClaimant)
  | recordEvent (event : RecordedEvent) (json : String) (identity : ExecutionEventIdentity)
    (claimant : LeaseClaimant)
  | orphan
  | acquireLease (workerId : String) (ttlMs start : Option ℤ)
  | renewLease (workerId : String) (options : RenewOptions)
  | releaseLease (workerId : String) (options : RenewOptions)
  | pause
  | resume
  | steer (params : SteeringParams)
  | toolCheckpoints
  | getWorkspaceRevision
  | survey
  | orphanStranded

abbrev EngineBlock.Out : EngineBlock → Type
  | .recover _ => Option ℕ
  | .checkStatus _ _ => StatusCheck
  | .complete _ => ℕ
  | .beginResult _ _ => ResultStep
  | .pushResult _ _ _ => ℕ
  | .beginStart _ => String
  | .dispatch _ _ _ _ => ℕ
  | .reconcile _ _ _ => ℕ
  | .assertLive _ => ℕ
  | .changeFiles _ _ => Option ℕ
  | .flush => ℕ
  | .recordEvidence _ _ => ℕ
  | .recordCheck _ _ => ℕ
  | .setEvaluation _ _ => Option ℕ
  | .recordEvent _ _ _ _ => ℕ
  | .orphan => Option ℕ
  | .acquireLease _ _ _ => ExecutionLease × ℕ
  | .renewLease _ _ => ExecutionLease × ℕ
  | .releaseLease _ _ => ExecutionLease × ℕ
  | .pause => ℕ
  | .resume => ℕ
  | .steer _ => ℕ
  | .toolCheckpoints => List ToolCallCheckpoint
  | .getWorkspaceRevision => ℕ
  | .survey => Option (List ToolCallCheckpoint)
  | .orphanStranded => Option ℕ

inductive WriteOutcome where
  | lands
  /-- The write is reported as failed; it may have landed all the same. -/
  | fails (message : String) (landed : Bool)

/-- What the surroundings supply to one step. -/
structure EngineInput where
  now : ℤ := 0
  uuid : String := ""
  /-- What an enabled fault hook throws. -/
  fault : Option String := none
  owner : OwnerView := .own
  inspection : Except String ToolOutcomeInspection := .error ""
  write : WriteOutcome := .lands
  /-- Artifacts are registered between the change and its write. -/
  registers : Bool := false
  loadFails : Option String := none

/-- The functions that the engine imports. -/
structure EngineHost where
  sanitizeUntrustedOutput : String → String
  hashToolArguments : String → String
  /-- The `path` of a tool's input, when it is a string. -/
  inputPath : String → Option String
  /-- What a stored date reads back as. -/
  stored : ℤ → ℤ

def EngineBlock.run (host : EngineHost) (inp : EngineInput) (m : ExecutionEngine) :
    (b : EngineBlock) → Ran b.Out
  | .recover fastStartup => m.recover fastStartup inp.owner inp.now
  | .checkStatus status options => m.checkStatus status options inp.now
  | .complete _ => m.writeStatus .completed inp.now
  | .beginResult call claimant => m.beginResult host.sanitizeUntrustedOutput call claimant inp.now
  | .pushResult call callId stepId => m.pushResult call callId stepId inp.now
  | .beginStart options => m.beginStart options inp.uuid inp.now
  | .dispatch tool input callId options =>
    m.dispatch host.hashToolArguments tool input callId options inp.now
  | .reconcile callId inspection inspectedBy =>
    m.reconcileToolCall callId inspection inspectedBy inp.now
  | .assertLive claimant => m.assertLive claimant inp.now
  | .changeFiles files mutated => m.changeFiles files mutated inp.registers inp.now
  | .flush => m.flush
  | .recordEvidence e bound => m.recordEvidence e bound inp.now
  | .recordCheck check claimant => m.recordCheck check claimant inp.now
  | .setEvaluation e claimant => m.setEvaluation e claimant inp.registers inp.now
  | .recordEvent event json identity claimant => m.recordEvent event json identity claimant inp.now
  | .orphan => m.orphan inp.now
  | .acquireLease workerId ttlMs start => m.acquireLease workerId ttlMs start inp.uuid inp.now
  | .renewLease workerId options => m.renewLease workerId options inp.now
  | .releaseLease workerId options => m.releaseLease workerId options inp.now
  | .pause => m.pause inp.now
  | .resume => m.resume inp.now
  | .steer params => m.steer params inp.now
  | .toolCheckpoints => m.after m.require fun _ => (.ok m.record.toolCheckpoints, m)
  | .getWorkspaceRevision => m.after m.require fun _ => (.ok m.record.revision, m)
  | .survey => m.survey inp.owner
  | .orphanStranded => m.orphanStranded inp.owner inp.now

inductive EngineOp where
  | block (b : EngineBlock)
  /-- `await injectFault(…)`, which yields also when no fault is set. -/
  | hook
  /-- The registration of artifacts, whose errors are ignored. -/
  | register
  | inspect (call : ToolCallCheckpoint)
  /-- Wait for the write with this number. -/
  | written (ticket : ℕ)
  /-- The next write of `persistenceTail`. -/
  | write
  | load (process : ℕ)

abbrev EngineOp.Res : EngineOp → Type
  | .block b => Except EngineError b.Out
  | .hook => Except EngineError Unit
  | .register => Unit
  | .inspect _ => Except String ToolOutcomeInspection
  | .written _ => Except EngineError Unit
  | .write => Unit
  | .load _ => Unit

/-- The engine in memory, if one is up, and the stored record. -/
structure ExecutionWorld where
  engine : Option ExecutionEngine
  durable : ExecutionRecord

namespace ExecutionWorld

/-- The write at the head of `persistenceTail`; none is made once one has failed. -/
def write (outcome : WriteOutcome) (m : ExecutionEngine) (durable : ExecutionRecord) :
    ExecutionWorld :=
  match m.pending, m.persistenceFailure with
  | r :: rest, none =>
    match outcome with
    | .lands => ⟨some { m with pending := rest, landed := m.landed + 1 }, r⟩
    | .fails e landed =>
      ⟨some { m with persistenceFailure := some e }, if landed then r else durable⟩
  | _, _ => ⟨some m, durable⟩

/-- Whether the write with this number is done. -/
def ticketState (m : ExecutionEngine) (ticket : ℕ) : Option (Except EngineError Unit) :=
  if ticket ≤ m.landed then some (.ok ())
  else m.persistenceFailure.map fun e => .error (.persistence e)

end ExecutionWorld

def engineExec (host : EngineHost) (op : EngineOp) (inp : EngineInput) (w : ExecutionWorld) :
    Option (op.Res × ExecutionWorld) :=
  match op, w.engine with
  | .load process, none =>
    some ((), { w with engine := some (loadedEngine host.stored process w.durable inp.loadFails) })
  | .load _, some _ => none
  | _, none => none
  | .block b, some m => some ((b.run host inp m).1, { w with engine := some (b.run host inp m).2 })
  | .hook, some _ =>
    some (match inp.fault with
      | some e => .error (.fault e)
      | none => .ok (), w)
  | .register, some _ => some ((), w)
  | .inspect _, some _ => some (inp.inspection, w)
  | .written ticket, some m => (ExecutionWorld.ticketState m ticket).map fun r => (r, w)
  | .write, some m => some ((), ExecutionWorld.write inp.write m w.durable)

abbrev EngineProg (α : Type) := Prog EngineOp EngineOp.Res EngineError α

/-! The methods. -/

namespace EngineProg

def block (b : EngineBlock) : EngineProg b.Out := .call (.block b) .resume

def hook : EngineProg Unit := .call .hook .resume

def written (ticket : ℕ) : EngineProg Unit := .call (.written ticket) .resume

end EngineProg

open EngineProg

/-- Wait for a write, if one was asked for. -/
def writtenIfAny : Option ℕ → EngineProg Unit
  | some ticket => written ticket
  | none => pure ()

/-- The write that a method asks for at once or after the registration of artifacts. -/
def registered : Option ℕ → EngineProg Unit
  | some ticket => written ticket
  | none => .call .register fun _ => do written (← block .flush)

def setStatus (status : ExecutionStatus) (options : StatusOptions) : EngineProg Unit := do
  match ← block (.checkStatus status options) with
  | .rejected e ticket =>
    written ticket
    throw e
  | .written ticket => written ticket
  | .passed check =>
    hook
    written (← block (.complete check))

def recordToolCall (call : ToolCallRecord) (claimant : LeaseClaimant) : EngineProg Unit := do
  match ← block (.beginResult call claimant) with
  | .repeated ticket => written ticket
  | .recorded callId stepId =>
    hook
    written (← block (.pushResult call callId stepId))

def recordToolStart (tool input : String) (options : ToolStartOptions) : EngineProg String := do
  let callId ← block (.beginStart options)
  hook
  written (← block (.dispatch tool input callId options))
  return callId

def reconcileToolCall (callId : String) (inspection : ToolOutcomeInspection)
    (inspectedBy : String) : EngineProg Unit := do
  written (← block (.reconcile callId inspection inspectedBy))

/-- `file.replace(/\\/g, '/')` -/
def slashed (file : String) : String :=
  String.ofList (file.toList.map fun c => if c = '\\' then '/' else c)

def recordFilesChanged (files : List String) (mutated : Bool) (claimant : LeaseClaimant) :
    EngineProg Unit :=
  if files = [] then pure ()
  else do
    let _ ← block (.assertLive claimant)
    hook
    registered (← block (.changeFiles (files.map slashed) mutated))

def recordEvidence (e : EvidenceInput) (claimant : LeaseClaimant) : EngineProg Unit := do
  let current ← block (.assertLive claimant)
  hook
  written (← block (.recordEvidence e (e.bound current)))

def setEvaluation (e : EvaluationInput) (claimant : LeaseClaimant) : EngineProg Unit := do
  registered (← block (.setEvaluation e claimant))

def startup (process : ℕ) (fastStartup : Bool) : EngineProg Unit :=
  .call (.load process) fun _ => do writtenIfAny (← block (.recover fastStartup))

/-! Recovery. -/

/-- An inspection that fails proves nothing. -/
def inspect (call : ToolCallCheckpoint) : EngineProg ToolOutcomeInspection :=
  .call (.inspect call) fun
    | .ok inspection => pure inspection
    | .error message => pure ⟨.undetermined, "Physical inspection failed: " ++ message⟩

def reconcileInspected :
    List ToolCallCheckpoint → EngineProg (List (String × ToolOutcome))
  | [] => pure []
  | call :: rest => do
    let inspection ← inspect call
    if inspection.outcome = .undetermined then reconcileInspected rest
    else do
      reconcileToolCall call.callId inspection "startup-recovery"
      return (call.callId, inspection.outcome) :: (← reconcileInspected rest)

/-- `reconcileLocalOutcomes`, as far as it is about the execution. -/
def reconcileLocalOutcomes (inspects : Bool) : EngineProg (List (String × ToolOutcome)) := do
  match ← block .survey with
  | none => return []
  | some calls =>
    let done ← if inspects then reconcileInspected calls else pure []
    writtenIfAny (← block .orphanStranded)
    return done

inductive OperatorDecision where
  | assumeApplied
  | allowRetry
  | abort
  deriving DecidableEq

structure OperatorAuthorizedResolution where
  callId : String
  decision : OperatorDecision
  authorizedBy : String
  reason : Option String

structure CrossHarnessOptions where
  inspects : Bool
  operatorAuthorized : List OperatorAuthorizedResolution
  advanceRevisionOnApplied : Bool

/-- The calls by what became of them; without blocked ones it is safe to resume. -/
structure CrossHarnessResult where
  blockedCallIds : List String := []
  retryableCallIds : List String := []
  appliedCallIds : List String := []

namespace CrossHarnessResult

def blocked (r : CrossHarnessResult) (callId : String) : CrossHarnessResult :=
  { r with blockedCallIds := callId :: r.blockedCallIds }

def retryable (r : CrossHarnessResult) (callId : String) : CrossHarnessResult :=
  { r with retryableCallIds := callId :: r.retryableCallIds }

def applied (r : CrossHarnessResult) (callId : String) : CrossHarnessResult :=
  { r with appliedCallIds := callId :: r.appliedCallIds }

end CrossHarnessResult

section CrossHarness

variable (host : EngineHost) (options : CrossHarnessOptions)

/-- The file that an applied call is taken to have changed. -/
def changedPath (call : ToolCallCheckpoint) : String :=
  (host.inputPath call.input).getD ("reconciled:" ++ call.toolName ++ ":" ++ call.callId)

/-- Confirm that a call was applied, and advance the revision if it is still the call's own. -/
def confirmApplied (call : ToolCallCheckpoint) (evidence inspectedBy : String) :
    EngineProg Unit := do
  reconcileToolCall call.callId ⟨.applied, evidence⟩ inspectedBy
  if options.advanceRevisionOnApplied then
    let current ← block .getWorkspaceRevision
    if current ≤ call.workspaceRevision then
      recordFilesChanged [changedPath host call] false {}

def inspectIf (call : ToolCallCheckpoint) : EngineProg ToolOutcomeInspection :=
  if options.inspects then inspect call
  else pure ⟨.undetermined, "No physical outcome inspector provided"⟩

def OperatorAuthorizedResolution.evidence (a : OperatorAuthorizedResolution)
    (inspection : ToolOutcomeInspection) : String :=
  let decision := match a.decision with
    | .assumeApplied => "assume_applied"
    | .allowRetry => "allow_retry"
    | .abort => "abort"
  "Operator '" ++ a.authorizedBy ++ "' authorized '" ++ decision ++ "'" ++
    (a.reason.map (": " ++ ·)).getD "" ++ " (prior physical check: " ++ inspection.evidence ++ ")"

/-- What an operator decided about a call that inspection could not settle. -/
def resolveAuthorized (call : ToolCallCheckpoint) (inspection : ToolOutcomeInspection) :
    EngineProg (CrossHarnessResult → CrossHarnessResult) :=
  match options.operatorAuthorized.reverse.find? (·.callId = call.callId) with
  | none => pure (·.blocked call.callId)
  | some a =>
    match a.decision with
    | .abort => pure (·.blocked call.callId)
    | .assumeApplied => do
      confirmApplied host options call (a.evidence inspection) ("operator:" ++ a.authorizedBy)
      return (·.applied call.callId)
    | .allowRetry => do
      reconcileToolCall call.callId ⟨.notApplied, a.evidence inspection⟩
        ("operator:" ++ a.authorizedBy)
      return (·.retryable call.callId)

def resolveCall (call : ToolCallCheckpoint) :
    EngineProg (CrossHarnessResult → CrossHarnessResult) :=
  if call.sideEffectClass = .readOnly then do
    reconcileToolCall call.callId
      ⟨.notApplied, "READ_ONLY tool call has no side effects; safe to retry"⟩
      "cross-harness-reconciler"
    return (·.retryable call.callId)
  else do
    let inspection ← inspectIf options call
    match inspection.outcome with
    | .applied => do
      confirmApplied host options call inspection.evidence "cross-harness-reconciler"
      return (·.applied call.callId)
    | .notApplied => do
      reconcileToolCall call.callId inspection "cross-harness-reconciler"
      return (·.retryable call.callId)
    | .undetermined => resolveAuthorized host options call inspection

def resolveCalls : List ToolCallCheckpoint → EngineProg CrossHarnessResult
  | [] => pure {}
  | call :: rest => do
    let add ← resolveCall host options call
    return add (← resolveCalls rest)

def reconcileBeforeCrossHarnessResume : EngineProg CrossHarnessResult := do
  let calls ← block .toolCheckpoints
  resolveCalls host options (calls.filter (·.state.unresolved))

end CrossHarness

/-! The calls. -/

inductive EngineCall where
  | startup (fastStartup : Bool)
  /-- A turn of the writes that are on their way. -/
  | write
  | setStatus (status : ExecutionStatus) (options : StatusOptions)
  | recordToolCall (call : ToolCallRecord) (claimant : LeaseClaimant)
  | recordToolStart (tool input : String) (options : ToolStartOptions)
  | reconcileToolCall (callId : String) (inspection : ToolOutcomeInspection) (inspectedBy : String)
  | recordFilesChanged (files : List String) (mutated : Bool) (claimant : LeaseClaimant)
  | recordEvidence (e : EvidenceInput) (claimant : LeaseClaimant)
  | recordCheck (check : CheckRunRecord) (claimant : LeaseClaimant)
  | setEvaluation (e : EvaluationInput) (claimant : LeaseClaimant)
  | recordEvent (event : RecordedEvent) (json : String) (identity : ExecutionEventIdentity)
    (claimant : LeaseClaimant)
  | orphan
  | acquireLease (workerId : String) (ttlMs start : Option ℤ)
  | renewLease (workerId : String) (options : RenewOptions)
  | releaseLease (workerId : String) (options : RenewOptions)
  | pause
  | resume
  | steer (params : SteeringParams)
  | reconcileLocalOutcomes (inspects : Bool)
  | reconcileBeforeCrossHarnessResume (options : CrossHarnessOptions)

structure EngineRequest where
  process : ℕ
  call : EngineCall

inductive EngineAnswer where
  | done
  | callId (id : String)
  | lease (l : ExecutionLease)
  | reconciled (calls : List (String × ToolOutcome))
  | crossHarness (result : CrossHarnessResult)

/-- A lease, once its event is written. -/
def leased : ExecutionLease × ℕ → EngineProg EngineAnswer := fun (l, ticket) => do
  written ticket
  return .lease l

def EngineRequest.body (host : EngineHost) (req : EngineRequest) : EngineProg EngineAnswer :=
  match req.call with
  | .startup fastStartup => do
    startup req.process fastStartup
    return .done
  | .write => .call .write fun _ => .ret .done
  | .setStatus status options => do
    setStatus status options
    return .done
  | .recordToolCall call claimant => do
    recordToolCall call claimant
    return .done
  | .recordToolStart tool input options => return .callId (← recordToolStart tool input options)
  | .reconcileToolCall callId inspection inspectedBy => do
    reconcileToolCall callId inspection inspectedBy
    return .done
  | .recordFilesChanged files mutated claimant => do
    recordFilesChanged files mutated claimant
    return .done
  | .recordEvidence e claimant => do
    recordEvidence e claimant
    return .done
  | .recordCheck check claimant => do
    written (← block (.recordCheck check claimant))
    return .done
  | .setEvaluation e claimant => do
    setEvaluation e claimant
    return .done
  | .recordEvent event json identity claimant => do
    written (← block (.recordEvent event json identity claimant))
    return .done
  | .orphan => do
    writtenIfAny (← block .orphan)
    return .done
  | .acquireLease workerId ttlMs start => do leased (← block (.acquireLease workerId ttlMs start))
  | .renewLease workerId options => do leased (← block (.renewLease workerId options))
  | .releaseLease workerId options => do leased (← block (.releaseLease workerId options))
  | .pause => do
    written (← block .pause)
    return .done
  | .resume => do
    written (← block .resume)
    return .done
  | .steer params => do
    written (← block (.steer params))
    return .done
  | .reconcileLocalOutcomes inspects => return .reconciled (← reconcileLocalOutcomes inspects)
  | .reconcileBeforeCrossHarnessResume options =>
    return .crossHarness (← reconcileBeforeCrossHarnessResume host options)

/-- Calls go to the engine that is up; a new process starts when none is. -/
def engineAdmits (req : EngineRequest) (w : ExecutionWorld) : Option ExecutionWorld :=
  match req.call, w.engine with
  | .startup _, none => some w
  | .startup _, some _ => none
  | _, none => none
  | _, some m => if m.process = req.process then some w else none

abbrev EngineSystem :=
  System EngineOp EngineOp.Res EngineError EngineAnswer EngineRequest ℕ EngineInput ExecutionWorld

def engineSystem (host : EngineHost) : EngineSystem where
  body := EngineRequest.body host
  proc := EngineRequest.process
  exec := engineExec host
  admits := engineAdmits
  crash p w := if w.engine.any (·.process = p) then { w with engine := none } else w

/-- A new execution, once `create` has returned. -/
def createdRecord (process : ℕ) (inJob : Bool) (acceptance : AcceptanceContract) :
    ExecutionRecord :=
  { status := .queued, owner := some process, inJob := inJob, acceptance := acceptance
    revision := 0, events := [], toolCalls := [], filesChanged := [], evidence := []
    evaluation := none : ExecutionRecord }.push 0 .created (.note "created")

def createdWorld (process : ℕ) (inJob : Bool) (acceptance : AcceptanceContract) :
    ExecutionWorld where
  engine := some
    { process := process, record := createdRecord process inJob acceptance, lease := none
      persistenceFailure := none, pending := [], landed := 1 }
  durable := createdRecord process inJob acceptance

end Wazir.Core
