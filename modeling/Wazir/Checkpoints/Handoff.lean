import Wazir.Checkpoints.Redaction
import Wazir.Core.ToolCheckpoints
import Wazir.Goals.RepairHypotheses
import Wazir.Shared.JsArithmetic
import Wazir.Shared.KeyedMaps
import Wazir.Shared.Throwing

/-! What a portable handoff is made of (`createPortableHandoff` of `services/handoffService.ts`): the
durable facts of an execution, merged and summed up, redacted and signed. -/

namespace Wazir.Checkpoints

open JsValue

/-- The members of an object literal that are there. -/
def presentMembers (members : List (String × Option JsValue)) : List (String × JsValue) :=
  members.filterMap fun m => m.2.map fun v => (m.1, v)

def strings (items : List String) : JsValue := .arr (items.map .str)

/-- `s ? s : undefined` -/
def truthyText (s : Option String) : Option String := s.filter (· ≠ "")

def numberString (n : JsNumber) : String := template (.num n)

/-- `d.toISOString()` -/
def toISOString : JsDate → Except String String
  | some t => .ok (isoText t)
  | none => .error "Invalid time value"

namespace Handoff

open Core (ToolSideEffectClass ToolCallState ExecutionStatus)

/-! The record of an execution. -/

structure ToolCallRecord where
  callId : Option String
  id : String
  tool : String
  ok : Bool
  output : Option String
  doneAt : JsDate

structure FileMutation where
  path : String
  revision : JsNumber
  doneAt : JsDate

inductive CheckName where
  | test
  | lint
  | typecheck
  | build
  deriving DecidableEq

def CheckName.text : CheckName → String
  | .test => "test"
  | .lint => "lint"
  | .typecheck => "typecheck"
  | .build => "build"

structure CheckRun where
  name : CheckName
  command : String
  ok : Bool
  workspaceRevision : Option JsNumber

/-- The types of events that a handoff reads. -/
inductive EventType where
  | toolStarted
  | toolCompleted
  | toolUnknownOutcome
  | workspaceRevisionChanged
  | generationStarted
  | stepCompleted
  | other (name : String)
  deriving DecidableEq

structure ExecutionEvent where
  id : String
  type : EventType
  eventType : Option EventType
  sequence : Option ℤ
  timestamp : JsDate
  data : JsValue
  stepId : Option String
  callId : Option String
  workspaceRevision : Option JsNumber

inductive VerificationStatus where
  | pass
  | fail
  | error
  deriving DecidableEq

structure VerificationEvidence where
  id : String
  revision : Option JsNumber
  workspaceRevision : Option JsNumber
  status : Option VerificationStatus

inductive CostStatus where
  | actual
  | estimated
  | unknown

def CostStatus.text : CostStatus → String
  | .actual => "ACTUAL"
  | .estimated => "ESTIMATED"
  | .unknown => "UNKNOWN"

structure TokenUsage where
  input : JsNumber
  output : JsNumber
  total : Option JsNumber

structure ExecutionRecord where
  id : String
  taskId : String
  jobId : Option String
  agentId : Option String
  modelId : String
  runtimeId : String
  workerId : Option String
  computerId : Option String
  workspaceRoot : Option String
  status : ExecutionStatus
  createdAt : JsDate
  startedAt : Option JsDate
  completedAt : Option JsDate
  input : String
  policy : Option (KeyedMap JsValue)
  toolCalls : List ToolCallRecord
  filesChanged : List String
  mutationHistory : List FileMutation
  checks : List CheckRun
  events : List ExecutionEvent
  evidence : List VerificationEvidence
  revision : Option JsNumber
  contentFingerprint : Option String
  usage : Option TokenUsage
  totalModelCalls : Option JsNumber
  costUSD : Option JsNumber
  costStatus : Option CostStatus

/-! Tool calls. -/

structure ToolCallCheckpoint where
  executionId : String
  callId : String
  stepId : String
  toolName : String
  input : JsValue
  argumentsHash : String
  startedAt : JsDate
  finishedAt : Option JsDate
  state : ToolCallState
  workspaceRevision : JsNumber
  sideEffectClass : ToolSideEffectClass
  legacyCorrelation : Option Bool

def stateText : ToolCallState → String
  | .started => "STARTED"
  | .completed => "COMPLETED"
  | .failed => "FAILED"
  | .outcomeUnknown => "OUTCOME_UNKNOWN"

def sideEffectText : ToolSideEffectClass → String
  | .readOnly => "READ_ONLY"
  | .idempotentWrite => "IDEMPOTENT_WRITE"
  | .nonIdempotentWrite => "NON_IDEMPOTENT_WRITE"

def sideEffectClass (s : String) : Option ToolSideEffectClass :=
  [.readOnly, .idempotentWrite, .nonIdempotentWrite].find? fun c => sideEffectText c = s

/-- What the creator uses beside its arguments: hashes, the dates of the host, and the workspace on
disk. -/
structure Host extends RestoreHost where
  hashToolArguments : JsValue → String
  /-- `path.resolve(root) === path.resolve(process.cwd())` -/
  isWorkingDirectory : String → Bool
  /-- `snapshotDirectoryFiles` -/
  snapshot : String → List (String × String)
  readFile : String → String → Option String

section Calls

variable (host : Host)

/-- The start of a call, as an event tells of it. -/
def startedCall (executionId : String) (e : ExecutionEvent) : ToolCallCheckpoint :=
  let text (key : String) := (e.data.get key).string
  let callId := (e.callId.orElse fun _ => text "callId").getD e.id
  { executionId := executionId
    callId := callId
    stepId := (e.stepId.orElse fun _ => text "stepId").getD callId
    toolName := ((text "toolName").orElse fun _ => text "tool").getD "unknown"
    input := e.data.get "input"
    argumentsHash := (text "argumentsHash").getD (host.hashToolArguments (e.data.get "input"))
    startedAt :=
      match e.data.get "startedAt" with
      | .undefined | .null => e.timestamp
      | v => newDate host.parseDate v
    finishedAt := none
    state := .started
    workspaceRevision :=
      ((e.data.get "workspaceRevision").number.orElse fun _ => e.workspaceRevision).getD (.finite 0)
    sideEffectClass := ((text "sideEffectClass").bind sideEffectClass).getD .nonIdempotentWrite
    legacyCorrelation :=
      match e.data.get "legacyCorrelation" with
      | .bool b => some b
      | _ => some (e.callId.all (· = "")) }

/-- The call that an outcome is of. -/
def outcomeCall (calls : KeyedMap ToolCallCheckpoint) (e : ExecutionEvent) : Option ToolCallCheckpoint :=
  match truthyText (e.callId.orElse fun _ => (e.data.get "callId").string) with
  | some callId => calls.get callId
  | none => (calls.entries.map Prod.snd).find? fun c =>
    c.state = .started && (e.data.get "tool").string = some c.toolName &&
      (e.data.get "policyEffect").string ≠ some "deny" &&
      (e.data.get "policyEffect").string ≠ some "ask"

def withOutcome (e : ExecutionEvent) (call : ToolCallCheckpoint) : ToolCallCheckpoint :=
  { call with
    state :=
      if e.type = .toolUnknownOutcome ||
          (e.data.get "failureClass").string = some "TOOL_OUTCOME_UNKNOWN" then .outcomeUnknown
      else if (e.data.get "ok").truthy then .completed
      else .failed
    finishedAt := if e.type = .toolCompleted then some e.timestamp else call.finishedAt }

def extractEvent (executionId : String) (calls : KeyedMap ToolCallCheckpoint) (e : ExecutionEvent) :
    KeyedMap ToolCallCheckpoint :=
  if !e.data.truthy then calls
  else match e.type with
    | .toolStarted =>
      let call := startedCall host executionId e
      calls.set call.callId call
    | .toolCompleted | .toolUnknownOutcome =>
      match outcomeCall calls e with
      | some call => calls.set call.callId (withOutcome e call)
      | none => calls
    | _ => calls

/-- `extractToolCheckpoints` -/
def extractToolCheckpoints (r : ExecutionRecord) : List ToolCallCheckpoint :=
  (r.events.foldl (extractEvent host r.id) KeyedMap.empty).entries.map Prod.snd

/-- The calls that the engine knows of, overwritten by what the events tell. -/
def mergedCheckpoints (engine : List ToolCallCheckpoint) (r : ExecutionRecord) :
    List ToolCallCheckpoint :=
  ((engine ++ extractToolCheckpoints host r).foldl (fun m c => m.set c.callId c)
    KeyedMap.empty).entries.map Prod.snd

end Calls

/-! The state that the events tell of. -/

/-- What a handoff reads of `reconstructExecutionState`. -/
structure ReconstructedState where
  workspaceRevision : JsNumber
  currentPassing : List String
  modelRequests : ℕ
  toolCalls : ℕ
  tokens : JsNumber
  wallClockMs : JsNumber

def ExecutionEvent.kind (e : ExecutionEvent) : EventType := e.eventType.getD e.type

def milliseconds : JsDate → JsNumber
  | some t => .finite t.1
  | none => .nan

def reconstructedRevision (r : ExecutionRecord) : JsNumber :=
  let events := sortBy (fun a b => compare (a.sequence.getD 0) (b.sequence.getD 0)) r.events
  let told := events.foldl (fun (revision : JsNumber) e =>
    match e.kind, (e.data.get "workspaceRevision").number with
    | .workspaceRevisionChanged, some n => revision.max n
    | _, _ => revision) JsNumber.zero
  told.max (r.revision.getD (.finite 0))

def reconstructExecutionState (r : ExecutionRecord) (now : Timestamp) : ReconstructedState :=
  let revision := reconstructedRevision r
  let latest := r.checks.foldl (fun (m : KeyedMap Bool) check =>
    if (check.workspaceRevision.getD (.finite (-1))).same revision then m.set check.name.text check.ok
    else m) KeyedMap.empty
  let start := r.startedAt.getD r.createdAt
  let finish := r.completedAt.getD (some now)
  { workspaceRevision := revision
    currentPassing := sortBy compareStrings ((latest.entries.filter Prod.snd).map Prod.fst)
    modelRequests := (r.events.filter fun e => e.kind = .generationStarted).length
    toolCalls := r.toolCalls.length
    tokens :=
      match r.usage with
      | some usage => usage.total.getD (usage.input.add usage.output)
      | none => .finite 0
    wallClockMs := JsNumber.zero.max ((milliseconds finish).sub (milliseconds start)) }

/-! The workspace. -/

/-- `computeWorkspaceContentDigest` -/
def computeWorkspaceContentDigest (host : Host) (workspaceRoot : Option String) (revision : JsNumber)
    (filesChanged : List String) (contentFingerprint : Option String) : String :=
  let content :=
    match truthyText workspaceRoot with
    | some root =>
      if !host.isWorkingDirectory root then
        (sortBy (fun a b => host.localeCompare a.1 b.1) (host.snapshot root)).flatMap fun kv =>
          jsonText (strings [kv.1, kv.2])
      else
        (sortBy host.localeCompare filesChanged.eraseDups).flatMap fun path =>
          jsonText (.arr [.str path, ((host.readFile root path).map .str).getD .null])
    | none => []
  let fingerprint :=
    match truthyText contentFingerprint with
    | some fp => "fp:" ++ fp ++ "\n"
    | none => ""
  host.sha256 (String.ofList content ++ fingerprint ++ "rev:" ++ numberString revision ++ "\n")

/-- By revision, then by date, the latest first. -/
def later (a b : ExecutionCheckpoint) : Ordering :=
  (compare b.workspaceRevision a.workspaceRevision).then (compare b.createdAt.1 a.createdAt.1)

/-! The options. -/

structure BudgetLimits where
  maxTokens : Option JsNumber
  maxToolCalls : Option JsNumber
  maxModelCalls : Option JsNumber
  maxCostUSD : Option JsNumber
  maxDurationMs : Option JsNumber

structure CreateOptions where
  sourceHarnessId : Option String
  targetHarnessId : Option String
  checkpointId : Option String
  budgetLimits : BudgetLimits
  pendingActions : Option (List String)
  policyContext : Option (KeyedMap JsValue)

/-- The clock when it is read. -/
structure Clock where
  reconstruct : Timestamp
  mutation : ℕ → Timestamp
  check : ℕ → Timestamp
  created : Timestamp

/-- Identity, revision and content digest of the state that is handed over. -/
structure HandedState where
  checkpointId : String
  revision : JsNumber
  contentDigest : String

/-- `service` is the checkpoint service, if there is one, with its checkpoints in the order of the
map. -/
def handedState (host : Host) (projectRoot : Option String) (service : Option (List ExecutionCheckpoint))
    (r : ExecutionRecord) (checkpointId : Option String) (revision : JsNumber) : HandedState :=
  let found : Option ExecutionCheckpoint :=
    match service, truthyText checkpointId with
    | some checkpoints, some id => checkpoints.find? fun c => c.id = id
    | some checkpoints, none =>
      (sortBy later (checkpoints.filter fun c => r.id = "" || c.executionId = r.id)).head?
    | none, _ => none
  let revision := (found.map fun c => JsNumber.finite c.workspaceRevision).getD revision
  let id := (truthyText checkpointId).orElse fun _ => truthyText (found.map (·.id))
  { checkpointId := id.getD ("chk-portable-" ++ r.id ++ "-r" ++ numberString revision)
    revision := revision
    contentDigest := (truthyText (found.map fun c => host.computeDigest c.toJs)).getD
      (computeWorkspaceContentDigest host (r.workspaceRoot.orElse fun _ => projectRoot) revision
        r.filesChanged r.contentFingerprint) }

/-! What was done. -/

inductive ActionKind where
  | toolCall
  | fileMutation
  | verificationCheck
  | planStep

def ActionKind.text : ActionKind → String
  | .toolCall => "tool_call"
  | .fileMutation => "file_mutation"
  | .verificationCheck => "verification_check"
  | .planStep => "plan_step"

structure PortableActionSummary where
  actionId : String
  kind : ActionKind
  summary : String
  toolName : Option String
  targetPath : Option String
  workspaceRevision : JsNumber
  doneAt : String

/-- `output.slice(0, 100).replace(/\s+/g, ' ').trim()` -/
def preview (output : String) : String :=
  trim (String.ofList (Goals.collapseSpace false (ofUnits ((utf16 output).take 100))))

def toolAction (revision : JsNumber) (tc : ToolCallRecord) : Except String PortableActionSummary := do
  let output :=
    match truthyText tc.output with
    | some output => " (" ++ preview output ++ ")"
    | none => ""
  return {
    actionId := tc.callId.getD tc.id
    kind := .toolCall
    summary := redact ("Confirmed tool '" ++ tc.tool ++ "'" ++ output)
    toolName := some tc.tool
    targetPath := none
    workspaceRevision := revision
    doneAt := ← toISOString tc.doneAt }

def mutationId (revision : JsNumber) (path : String) : String :=
  "mutation-" ++ numberString revision ++ "-" ++ path

def mutationAction (m : FileMutation) : Except String PortableActionSummary := do
  return {
    actionId := mutationId m.revision m.path
    kind := .fileMutation
    summary := redact ("Modified file '" ++ m.path ++ "' at revision " ++ numberString m.revision)
    toolName := none
    targetPath := some m.path
    workspaceRevision := m.revision
    doneAt := ← toISOString m.doneAt }

def fileAction (revision : JsNumber) (path : String) (now : Timestamp) : PortableActionSummary where
  actionId := mutationId revision path
  kind := .fileMutation
  summary := redact ("Modified file '" ++ path ++ "'")
  toolName := none
  targetPath := some path
  workspaceRevision := revision
  doneAt := isoText now

def checkAction (revision : JsNumber) (check : CheckRun) (now : Timestamp) : PortableActionSummary where
  actionId := "check-" ++ check.name.text ++ "-r" ++ numberString revision
  kind := .verificationCheck
  summary := redact ("Check '" ++ check.name.text ++ "' passed at revision " ++ numberString revision ++
    " (" ++ check.command ++ ")")
  toolName := none
  targetPath := none
  workspaceRevision := revision
  doneAt := isoText now

def stepSummary (data : JsValue) : String :=
  match (data.get "summary").string, (data.get "stepId").string with
  | some summary, _ => summary
  | none, some stepId => "Completed plan step " ++ stepId
  | none, none => "Completed plan step"

def stepAction (revision : JsNumber) (e : ExecutionEvent) : Except String PortableActionSummary := do
  return {
    actionId := e.stepId.getD e.id
    kind := .planStep
    summary := redact (stepSummary e.data)
    toolName := none
    targetPath := none
    workspaceRevision := e.workspaceRevision.getD revision
    doneAt := ← toISOString e.timestamp }

def currentCheck (revision : JsNumber) (check : CheckRun) : Bool :=
  check.ok && (check.workspaceRevision.getD revision).same revision

def fileActions (r : ExecutionRecord) (revision : JsNumber) (clock : Clock) :
    Except String (List PortableActionSummary) :=
  if r.mutationHistory ≠ [] then r.mutationHistory.mapM mutationAction
  else .ok (r.filesChanged.mapIdx fun i path => fileAction revision path (clock.mutation i))

/-- `completedActions` -/
def completedActions (r : ExecutionRecord) (revision : JsNumber) (clock : Clock) :
    Except String (List PortableActionSummary) := do
  let tools ← (r.toolCalls.filter (·.ok)).mapM (toolAction revision)
  let files ← fileActions r revision clock
  let checks := (r.checks.filter (currentCheck revision)).mapIdx fun i check =>
    checkAction revision check (clock.check i)
  let steps ← (r.events.filter fun e => e.kind = .stepCompleted).mapM (stepAction revision)
  return tools ++ files ++ checks ++ steps

def unresolvedSideEffects (calls : List ToolCallCheckpoint) : List ToolCallCheckpoint :=
  (calls.filter fun c => c.state.unresolved).map fun c => { c with input := redactUnknown c.input }

/-- Evidence that is valid at the revision. -/
def currentEvidence (revision : JsNumber) (e : VerificationEvidence) : Bool :=
  ((e.revision.orElse fun _ => e.workspaceRevision).getD revision).same revision &&
    e.status.all (· = .pass)

def checkEvidenceId (revision : JsNumber) (check : String) : String :=
  "check:" ++ check ++ "@r" ++ numberString revision

def verificationEvidenceIds (r : ExecutionRecord) (revision : JsNumber) (passing : List String) :
    List String :=
  passing.foldl (fun ids check =>
    let id := checkEvidenceId revision check
    if id ∈ ids then ids else ids ++ [id])
    ((r.evidence.filter (currentEvidence revision)).map (·.id))

/-! Budgets. -/

structure PortableBudgetState where
  tokensUsed : JsNumber
  toolCallsUsed : JsNumber
  modelCallsUsed : JsNumber
  costUSD : JsNumber
  costStatus : CostStatus
  durationMs : JsNumber

def localRuntimes : List String :=
  ["local", "ollama", "lmstudio", "vllm", "llamacpp", "llama.cpp", "mlx"]

def policyMember (r : ExecutionRecord) (key : String) : JsValue :=
  (r.policy.bind fun policy => policy.get key).getD .undefined

def isLocalRuntime (r : ExecutionRecord) : Bool :=
  let runtime := r.runtimeId.toLower
  runtime ∈ localRuntimes || "local".toList.isPrefixOf runtime.toList ||
    "ollama".toList.isPrefixOf runtime.toList ||
    match policyMember r "localOnly" with
    | .bool b => b
    | _ => false

def cost (r : ExecutionRecord) : JsNumber × CostStatus :=
  match r.costUSD with
  | some (.finite q) => (.finite q, r.costStatus.getD .actual)
  | _ => (.finite 0, if isLocalRuntime r then .actual else r.costStatus.getD .unknown)

def consumedBudget (r : ExecutionRecord) (state : ReconstructedState) : PortableBudgetState where
  tokensUsed := state.tokens
  toolCallsUsed := .finite state.toolCalls
  modelCallsUsed := r.totalModelCalls.getD (.finite state.modelRequests)
  costUSD := (cost r).1
  costStatus := (cost r).2
  durationMs := state.wallClockMs

/-- `n * 1000` -/
def inMilliseconds : JsNumber → JsNumber
  | .finite q => .finite (q * 1000)
  | n => n

/-- The members of `remainingBudget`; a budget without a limit is null. -/
def remainingBudget (r : ExecutionRecord) (limits : BudgetLimits) (consumed : PortableBudgetState) :
    List (String × Option JsNumber) :=
  let fromPolicy := (policyMember r "maxExecutionTimeSeconds").number.map inMilliseconds
  let left (limit : Option JsNumber) (used : JsNumber) := limit.map fun n => n.sub used
  [("maxTokens", left limits.maxTokens consumed.tokensUsed),
    ("maxToolCalls", left limits.maxToolCalls consumed.toolCallsUsed),
    ("maxModelCalls", left limits.maxModelCalls consumed.modelCallsUsed),
    ("maxCostUSD", (left limits.maxCostUSD consumed.costUSD).map JsNumber.toFixed6),
    ("maxDurationMs", left (limits.maxDurationMs.orElse fun _ => fromPolicy) consumed.durationMs)]

def exhaustedBudgets (remaining : List (String × Option JsNumber)) : List String :=
  (remaining.filter fun kv => kv.2.any fun n => n.le JsNumber.zero).map Prod.fst

/-- Why the handoff cannot be resumed. -/
def nonResumableReason (status : ExecutionStatus) (unresolved : List ToolCallCheckpoint)
    (remaining : List (String × Option JsNumber)) : Option String :=
  let blocking := unresolved.filter fun c => c.sideEffectClass ≠ .readOnly
  let exhausted := exhaustedBudgets remaining
  if status = .completed then some "TERMINAL_STATUS: execution is already completed"
  else if status = .cancelled then some "TERMINAL_STATUS: execution is already cancelled"
  else if blocking ≠ [] then
    some (redact ("UNRESOLVED_MUTATING_SIDE_EFFECTS: " ++ ", ".intercalate (blocking.map fun c =>
      c.toolName ++ " (" ++ c.callId ++ ", " ++ sideEffectText c.sideEffectClass ++ ")")))
  else if exhausted ≠ [] then some ("BUDGET_EXHAUSTED: " ++ ", ".intercalate exhausted)
  else none

/-- `basePolicy` -/
def basePolicy (policy context : Option (KeyedMap JsValue)) (workspaceRoot : Option String) :
    KeyedMap JsValue :=
  let merged := ((context.getD KeyedMap.empty).entries).foldl (fun m kv => m.set kv.1 kv.2)
    (policy.getD KeyedMap.empty)
  match truthyText workspaceRoot with
  | some root =>
    if (merged.get "projectRoot").any JsValue.truthy then merged
    else merged.set "projectRoot" (.str root)
  | none => merged

/-! The handoff. -/

/-- A handoff without its digest. -/
structure PortableDraft where
  executionId : String
  taskId : String
  jobId : Option String
  sourceHarnessId : String
  targetHarnessId : Option String
  sourceModelId : String
  sourceRuntimeId : String
  sourceWorkerId : Option String
  workspaceRevision : JsNumber
  workspaceContentDigest : String
  checkpointId : String
  objective : String
  completedActions : List PortableActionSummary
  pendingActions : List String
  filesChanged : List String
  unresolvedSideEffects : List ToolCallCheckpoint
  verificationEvidenceIds : List String
  consumedBudget : PortableBudgetState
  remainingBudget : List (String × Option JsNumber)
  policyContext : List (String × JsValue)
  nonResumableReason : Option String
  createdAt : Timestamp

def PortableActionSummary.toJs (a : PortableActionSummary) : JsValue :=
  .obj (presentMembers [("actionId", some (.str a.actionId)), ("kind", some (.str a.kind.text)),
    ("summary", some (.str a.summary)), ("toolName", a.toolName.map .str),
    ("targetPath", a.targetPath.map .str), ("workspaceRevision", some (.num a.workspaceRevision)),
    ("confirmed", some (.bool true)), ("at", some (.str a.doneAt))])

def ToolCallCheckpoint.toJs (c : ToolCallCheckpoint) : JsValue :=
  .obj (presentMembers [("executionId", some (.str c.executionId)), ("callId", some (.str c.callId)),
    ("stepId", some (.str c.stepId)), ("toolName", some (.str c.toolName)), ("input", some c.input),
    ("argumentsHash", some (.str c.argumentsHash)), ("startedAt", some (.date c.startedAt)),
    ("state", some (.str (stateText c.state))), ("workspaceRevision", some (.num c.workspaceRevision)),
    ("sideEffectClass", some (.str (sideEffectText c.sideEffectClass))),
    ("legacyCorrelation", c.legacyCorrelation.map .bool), ("finishedAt", c.finishedAt.map .date)])

def PortableBudgetState.toJs (b : PortableBudgetState) : JsValue :=
  .obj [("tokensUsed", .num b.tokensUsed), ("toolCallsUsed", .num b.toolCallsUsed),
    ("modelCallsUsed", .num b.modelCallsUsed), ("costUSD", .num b.costUSD),
    ("costStatus", .str b.costStatus.text), ("durationMs", .num b.durationMs)]

def PortableDraft.members (d : PortableDraft) : List (String × Option JsValue) :=
  [("schemaVersion", some (.nat 1)), ("executionId", some (.str d.executionId)),
    ("taskId", some (.str d.taskId)), ("jobId", d.jobId.map .str),
    ("sourceHarnessId", some (.str d.sourceHarnessId)), ("targetHarnessId", d.targetHarnessId.map .str),
    ("sourceModelId", some (.str d.sourceModelId)), ("sourceRuntimeId", some (.str d.sourceRuntimeId)),
    ("sourceWorkerId", d.sourceWorkerId.map .str),
    ("workspaceRevision", some (.str (numberString d.workspaceRevision))),
    ("workspaceContentDigest", some (.str d.workspaceContentDigest)),
    ("checkpointId", some (.str d.checkpointId)), ("objective", some (.str d.objective)),
    ("completedActions", some (.arr (d.completedActions.map (·.toJs)))),
    ("pendingActions", some (strings d.pendingActions)), ("filesChanged", some (strings d.filesChanged)),
    ("unresolvedSideEffects", some (.arr (d.unresolvedSideEffects.map (·.toJs)))),
    ("verificationEvidenceIds", some (strings d.verificationEvidenceIds)),
    ("consumedBudget", some d.consumedBudget.toJs),
    ("remainingBudget", some (.obj (d.remainingBudget.map fun kv =>
      (kv.1, (kv.2.map .num).getD .null)))),
    ("policyContext", some (.obj d.policyContext)),
    ("resumable", some (.bool d.nonResumableReason.isNone)),
    ("nonResumableReason", d.nonResumableReason.map .str),
    ("createdAt", some (.str (isoText d.createdAt)))]

def defaultPending : List String :=
  ["Inspect modified files and current workspace state", "Complete remaining task requirements",
    "Run verification checks at the final workspace revision"]

def PortableDraft.toJs (d : PortableDraft) : JsValue := .obj (presentMembers d.members)

theorem mem_presentMembers {members : List (String × Option JsValue)} {kv : String × JsValue} :
    kv ∈ presentMembers members ↔ (kv.1, some kv.2) ∈ members := by
  obtain ⟨k, v⟩ := kv
  simp [presentMembers, Prod.exists]

theorem presentMembers_keys (members : List (String × Option JsValue)) :
    ((presentMembers members).map Prod.fst).Sublist (members.map Prod.fst) := by
  induction members with
  | nil => exact .slnil
  | cons m rest ih =>
    obtain ⟨k, v⟩ := m
    cases v with
    | none => exact ih.cons k
    | some v => exact ih.cons_cons k

theorem lookup_presentMembers {members : List (String × Option JsValue)}
    (hnodup : (members.map Prod.fst).Nodup) {key : String} {v : JsValue}
    (h : (key, some v) ∈ members) : (presentMembers members).lookup key = some v :=
  (lookup_eq_some_mem (hnodup.sublist (presentMembers_keys members))).mpr (mem_presentMembers.mpr h)

def handoffKeys : List String :=
  ["schemaVersion", "executionId", "taskId", "jobId", "sourceHarnessId", "targetHarnessId",
    "sourceModelId", "sourceRuntimeId", "sourceWorkerId", "workspaceRevision",
    "workspaceContentDigest", "checkpointId", "objective", "completedActions", "pendingActions",
    "filesChanged", "unresolvedSideEffects", "verificationEvidenceIds", "consumedBudget",
    "remainingBudget", "policyContext", "resumable", "nonResumableReason", "createdAt"]

theorem handoffKeys_distinct : (handoffKeys ++ ["integrityDigest"]).Nodup := by decide

/-- No value of a draft is undefined. -/
theorem PortableDraft.members_defined (d : PortableDraft) :
    ∀ m ∈ d.members, m.2.all fun v => v.isUndefined = false := by
  simp only [PortableDraft.members, List.forall_mem_cons, Option.all_some, Option.all_map]
  simp [isUndefined, JsValue.nat, strings, PortableBudgetState.toJs]

/-- `{ ...draft, integrityDigest }` -/
def PortableDraft.signed (d : PortableDraft) (integrityDigest : String) : PortableHandoff where
  fields := presentMembers d.members ++ [("integrityDigest", .str integrityDigest)]
  keys := by
    have hsub : ((presentMembers d.members).map Prod.fst ++ ["integrityDigest"]).Sublist
        (handoffKeys ++ ["integrityDigest"]) :=
      (presentMembers_keys d.members).append_right _
    rw [List.map_append]
    exact handoffKeys_distinct.sublist hsub
  safe kv hkv := by
    have hsafe : ∀ k ∈ handoffKeys ++ ["integrityDigest"], k ∉ unsafeKeys := by decide
    refine hsafe _ ?_
    rcases List.mem_append.mp hkv with hkv | hkv
    · exact List.mem_append_left _ ((presentMembers_keys d.members).subset (List.mem_map_of_mem hkv))
    · obtain rfl := List.mem_singleton.mp hkv
      exact List.mem_append_right _ (List.mem_singleton.mpr rfl)
  defined kv hkv := by
    rcases List.mem_append.mp hkv with hkv | hkv
    · simpa using d.members_defined _ (mem_presentMembers.mp hkv)
    · obtain rfl := List.mem_singleton.mp hkv
      rfl
  executionId := d.executionId
  createdAt := d.createdAt
  hasExecutionId := rfl
  hasCreatedAt := by
    have hnodup : (d.members.map Prod.fst).Nodup := (List.nodup_append.mp handoffKeys_distinct).1
    rw [List.lookup_append, lookup_presentMembers hnodup (v := .str (isoText d.createdAt))
      (by simp [PortableDraft.members])]
    rfl

section Create

variable (host : Host) (projectRoot : Option String) (service : Option (List ExecutionCheckpoint))
  (engine : List ToolCallCheckpoint) (r : ExecutionRecord) (options : CreateOptions) (clock : Clock)

/-- The state that is handed over. -/
def stateOf : HandedState :=
  handedState host projectRoot service r options.checkpointId
    (reconstructExecutionState r clock.reconstruct).workspaceRevision

def sourceWorkerId : Option String :=
  if (truthyText r.workerId).isSome || (truthyText r.computerId).isSome then
    r.workerId.orElse fun _ => r.computerId
  else none

def draft : Except String PortableDraft := do
  let calls := mergedCheckpoints host engine r
  let state := reconstructExecutionState r clock.reconstruct
  let handed := stateOf host projectRoot service r options clock
  let actions ← completedActions r handed.revision clock
  let unresolved := unresolvedSideEffects calls
  let consumed := consumedBudget r state
  let remaining := remainingBudget r options.budgetLimits consumed
  let policy := basePolicy r.policy options.policyContext (r.workspaceRoot.orElse fun _ => projectRoot)
  return {
    executionId := r.id
    taskId := r.taskId
    jobId := truthyText r.jobId
    sourceHarnessId := (options.sourceHarnessId.orElse fun _ => r.agentId).getD "native"
    targetHarnessId := truthyText options.targetHarnessId
    sourceModelId := r.modelId
    sourceRuntimeId := r.runtimeId
    sourceWorkerId := sourceWorkerId r
    workspaceRevision := handed.revision
    workspaceContentDigest := handed.contentDigest
    checkpointId := handed.checkpointId
    objective := redact (if r.input = "" then "Continue task execution" else r.input)
    completedActions := actions
    pendingActions := (options.pendingActions.getD
      (if r.status = .completed then [] else defaultPending)).map redact
    filesChanged := r.filesChanged
    unresolvedSideEffects := unresolved
    verificationEvidenceIds := verificationEvidenceIds r handed.revision state.currentPassing
    consumedBudget := consumed
    remainingBudget := remaining
    policyContext := redactFields policy.entries
    nonResumableReason := nonResumableReason r.status unresolved remaining
    createdAt := clock.created }

/-- `createPortableHandoff`, of a record that the engine has. -/
def createPortableHandoff : Except String PortableHandoff := do
  let draft ← draft host projectRoot service engine r options clock
  match host.computePortableHandoffDigest draft.toJs with
  | some digest => return draft.signed digest
  | none => .error "Invalid time value"

end Create

end Handoff

end Wazir.Checkpoints
