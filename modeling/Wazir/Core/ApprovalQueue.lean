import Wazir.Core.ApprovalScope

/-! The approval queue (`services/approvalQueue.ts`) over its durable store. Audit events and the
listeners' own work are left out; whatever a listener does to a request is an event of its own. -/

namespace Wazir.Core

open JsValue

inductive ApprovalStatus where
  | pending
  | approved
  | denied
  | expired
  deriving DecidableEq

def ApprovalStatus.text : ApprovalStatus → String
  | .pending => "pending"
  | .approved => "approved"
  | .denied => "denied"
  | .expired => "expired"

/-- What the queue looks at has its type; the rest is as the store gave it back. -/
structure ApprovalRecord where
  id : String
  scopeKey : Option String
  status : ApprovalStatus
  tool : JsValue
  input : JsValue
  rule : JsValue
  reasons : JsValue
  jobId : JsValue
  taskId : JsValue
  executionId : JsValue
  agentId : JsValue
  scope : JsValue
  createdAt : JsValue
  expiresAt : JsValue
  resolvedAt : JsValue
  resolvedBy : JsValue

/-- A pending request; `expiresAt` may be an invalid date. -/
structure PendingApprovalRequest where
  id : String
  jobId : Option String
  taskId : Option String
  executionId : Option String
  agentId : Option String
  tool : String
  input : JsValue
  rule : String
  reasons : List String
  createdAt : Timestamp
  expiresAt : Option JsDate
  scope : Option ApprovalScope
  scopeKey : Option String

structure ApprovalQueueOptions where
  autoDenyNonInteractive : Bool
  defaultTimeoutMs : Option JsNumber
  allowEnvAutoApprove : Bool
  scopedTimeoutMs : Option JsNumber
  historyLimit : Option ℕ

def defaultScopedTimeoutMs : ℕ := 30 * 60000

def defaultHistoryLimit : ℕ := 500

def ApprovalQueueOptions.limit (options : ApprovalQueueOptions) : ℕ :=
  options.historyLimit.getD defaultHistoryLimit

/-- `history` is in the order of its keys' insertion; `unwritten` is what `persistChain` has yet to
put. -/
structure ApprovalQueue where
  pending : Table String PendingApprovalRequest
  pendingByScope : Table String String
  history : List ApprovalRecord
  decidedScopes : Table String ApprovalRecord
  unwritten : List ApprovalRecord

def emptyQueue : ApprovalQueue := ⟨∅, ∅, [], ∅, []⟩

abbrev ApprovalStore := Table String ApprovalRecord

/-! Records. -/

def optionalText (s : Option String) : JsValue := (s.map JsValue.str).getD .undefined

/-- `date?.toISOString()` -/
def optionalIso : Option JsDate → Except String JsValue
  | none => .ok .undefined
  | some none => .error "Invalid time value"
  | some (some t) => .ok (.str (isoText t))

def toRecord (item : PendingApprovalRequest) (status : ApprovalStatus) (resolvedAt : Option Timestamp)
    (resolvedBy : Option String) : Except String ApprovalRecord :=
  (optionalIso item.expiresAt).map fun expiresAt =>
    { id := item.id, scopeKey := item.scopeKey, status := status, tool := .str item.tool,
      input := item.input, rule := .str item.rule, reasons := .arr (item.reasons.map JsValue.str),
      jobId := optionalText item.jobId, taskId := optionalText item.taskId,
      executionId := optionalText item.executionId, agentId := optionalText item.agentId,
      scope := (item.scope.map ApprovalScope.toValue).getD .undefined,
      createdAt := .str (isoText item.createdAt), expiresAt := expiresAt,
      resolvedAt := optionalText (resolvedAt.map isoText), resolvedBy := optionalText resolvedBy }

/-- A record as a store gives it back that turns each member that is there into `gives` of it. Its
id, key and status never look like a date. -/
def ApprovalRecord.reload (gives : JsValue → JsValue) (r : ApprovalRecord) : ApprovalRecord :=
  let member := fun v : JsValue => if v.isUndefined then v else gives v
  { r with tool := member r.tool, input := member r.input, rule := member r.rule,
           reasons := member r.reasons, jobId := member r.jobId, taskId := member r.taskId,
           executionId := member r.executionId, agentId := member r.agentId,
           scope := member r.scope, createdAt := member r.createdAt,
           expiresAt := member r.expiresAt, resolvedAt := member r.resolvedAt,
           resolvedBy := member r.resolvedBy }

/-! History. -/

/-- What the loop of `remember` drops, from the oldest on. -/
def overflow {α : Type} (limit : ℕ) (history : List α) : List α :=
  history.take (history.length - limit)

/-- The index entry of a dropped record goes too, unless it is another record's. -/
def dropDecided (decided : Table String ApprovalRecord) (dropped : ApprovalRecord) :
    Table String ApprovalRecord :=
  match dropped.scopeKey with
  | none => decided
  | some key =>
    if (decided.lookup key).any (·.id = dropped.id) then decided.erase key else decided

def indexDecided (decided : Table String ApprovalRecord) (record : ApprovalRecord) :
    Table String ApprovalRecord :=
  match record.scopeKey with
  | none => decided
  | some key => if record.status = .pending then decided else decided.insert key record

def ApprovalQueue.remember (limit : ℕ) (q : ApprovalQueue) (record : ApprovalRecord) :
    ApprovalQueue :=
  let history := q.history.filter (·.id ≠ record.id) ++ [record]
  { q with
    history := history.drop (history.length - limit)
    decidedScopes := (overflow limit history).foldl dropDecided (indexDecided q.decidedScopes record) }

/-! Starting up. -/

section Startup

-- `a.localeCompare(b)`
variable (localeCompare : String → String → Ordering)

/-- Records with an id, by their `createdAt`. Two of them are compared with `localeCompare`, which a
date does not have; in which order the engine compares is its own choice, and every list of two or more
that holds a date is taken to throw. -/
def sortByCreated (entries : List ApprovalRecord) : Except String (List ApprovalRecord) :=
  let records := entries.filter (·.id ≠ "")
  if 2 ≤ records.length ∧ ∃ r ∈ records, r.createdAt.string = none then
    .error "a.createdAt.localeCompare is not a function"
  else
    .ok (sortBy (fun a b => localeCompare (a.createdAt.string.getD "") (b.createdAt.string.getD ""))
      records)

/-- A record that was still pending when the last process ended. -/
def ApprovalRecord.expire (now : Timestamp) (record : ApprovalRecord) : ApprovalRecord :=
  if record.status = .pending then
    { record with status := .expired, resolvedAt := .str (isoText now), resolvedBy := .str "restart" }
  else record

def loadRecord (limit : ℕ) (now : Timestamp) (putFails : String → Bool)
    (s : ApprovalQueue × ApprovalStore) (record : ApprovalRecord) : ApprovalQueue × ApprovalStore :=
  if record.id ∈ s.1.pending then s
  else
    (s.1.remember limit (record.expire now),
      if record.status = .pending && !putFails record.id then
        s.2.insert record.id (record.expire now)
      else s.2)

/-- `init` of a queue, on what its store lists. -/
def ApprovalQueue.init (limit : ℕ) (now : Timestamp) (putFails : String → Bool)
    (entries : List ApprovalRecord) (q : ApprovalQueue) (store : ApprovalStore) :
    Except String (ApprovalQueue × ApprovalStore) :=
  (sortByCreated localeCompare entries).map fun loaded =>
    loaded.foldl (loadRecord limit now putFails) (q, store)

end Startup

/-! Requests and their answers. -/

structure PolicyActionRequest where
  tool : String
  input : List (String × JsValue)
  executionId : Option String

structure PolicyDecision where
  rule : String
  reasons : List String

structure ScopedDetails where
  tool : Option String
  input : Option (List (String × JsValue))
  rule : Option String
  reasons : Option (List String)
  agentId : Option String
  ttlMs : Option JsNumber

structure PendingMetadata where
  jobId : Option String
  taskId : Option String
  agentId : Option String
  ttlMs : Option JsNumber
  scope : Option ApprovalScope
  scopeKey : Option String

/-- A request was settled, by an answer or because it ran out. -/
structure Decision where
  id : String
  scopeKey : Option String
  approved : Bool
  deriving DecidableEq

inductive ResolutionCode where
  | notFound
  | alreadyResolved
  | expired
  | scopeMismatch
  deriving DecidableEq

inductive ApprovalResolutionResult where
  | ok (record : ApprovalRecord)
  | refused (code : ResolutionCode) (message : String) (record : Option ApprovalRecord)

inductive ApprovalAnswer where
  | threw (message : String)
  /-- The promise of a pending request. -/
  | promised (id : String)
  /-- A promise that is settled already. -/
  | settled (approved : Bool)
  | rejected (message : String)
  | resolution (result : ApprovalResolutionResult)
  | none

/-- What a call did: who was asked, what was decided, and what its caller got. -/
structure ApprovalEffect where
  asked : List PendingApprovalRequest
  decided : List Decision
  answer : ApprovalAnswer

/-- `ttlMs !== undefined && ttlMs > 0 ? new Date(createdMs + ttlMs) : undefined` -/
def expiryDate (created : Timestamp) : Option JsNumber → Option JsDate
  | some (.finite q) =>
    if 0 < q then
      let t : ℚ := created.1 + q
      some (JsDate.ofMs (if t < 0 then ⌈t⌉ else ⌊t⌋))
    else none
  | some (.infinite false) => some none
  | _ => none

/-- `{ ...fields, [key]: v }` -/
def withField (fields : List (String × JsValue)) (key : String) (v : JsValue) :
    List (String × JsValue) :=
  if key ∈ fields.map Prod.fst then fields.map fun kv => if kv.1 = key then (key, v) else kv
  else fields ++ [(key, v)]

namespace ApprovalQueue

def newItem (request : PolicyActionRequest) (decision : PolicyDecision) (metadata : PendingMetadata)
    (uuid : String) (now : Timestamp) : PendingApprovalRequest :=
  { id := "appr-" ++ uuid, jobId := metadata.jobId
    taskId := metadata.taskId.or request.executionId, executionId := request.executionId
    agentId := metadata.agentId, tool := request.tool, input := .obj request.input
    rule := decision.rule, reasons := decision.reasons, createdAt := now
    expiresAt := expiryDate now metadata.ttlMs, scope := metadata.scope
    scopeKey := metadata.scopeKey }

/-- The executor of the new promise throws when the expiry has no ISO text, after the request went
into `pending`. -/
def createPending (item : PendingApprovalRequest) (q : ApprovalQueue) :
    ApprovalEffect × ApprovalQueue :=
  let q := { q with pending := q.pending.insert item.id item }
  match toRecord item .pending none none with
  | .error e => (⟨[item], [], .rejected e⟩, q)
  | .ok record =>
    (⟨[item], [], .promised item.id⟩, { q with unwritten := q.unwritten ++ [record] })

def scopedRequest (scope : ApprovalScope) (details : ScopedDetails) : PolicyActionRequest where
  tool := details.tool.getD (scope.kind ++ "." ++ scope.action)
  input := withField (withField (withField (withField (details.input.getD [])
    "runId" (.str scope.runId)) "targetId" (.str scope.targetId)) "attempt" (.num scope.attempt))
    "action" (.str scope.action)
  executionId := some scope.runId

def scopedItem (options : ApprovalQueueOptions) (scope : ApprovalScope) (details : ScopedDetails)
    (uuid : String) (now : Timestamp) : PendingApprovalRequest :=
  newItem (scopedRequest scope details)
    ⟨details.rule.getD (scope.kind ++ "-approval"),
      details.reasons.getD [scope.action ++ " requires explicit human approval"]⟩
    ⟨none, some (scope.runId ++ ":" ++ scope.targetId), details.agentId,
      details.ttlMs.or (options.scopedTimeoutMs.or (some (.finite defaultScopedTimeoutMs))),
      some scope, some (approvalScopeKey scope)⟩ uuid now

/-- `autoDeny` is `WAZIR_AUTO_DENY === '1'`. -/
def requestScoped (options : ApprovalQueueOptions) (scope : ApprovalScope) (details : ScopedDetails)
    (uuid : String) (now : Timestamp) (autoDeny : Bool) (q : ApprovalQueue) :
    ApprovalEffect × ApprovalQueue :=
  match validateScope scope with
  | .error e => (⟨[], [], .threw e⟩, q)
  | .ok () =>
    match q.pendingByScope.lookup (approvalScopeKey scope) with
    | some id => (⟨[], [], .promised id⟩, q)
    | none =>
      match q.decidedScopes.lookup (approvalScopeKey scope) with
      | some record => (⟨[], [], .settled (record.status = .approved)⟩, q)
      | none =>
        if autoDeny then (⟨[], [], .settled false⟩, q)
        else
          let item := scopedItem options scope details uuid now
          let (effect, q) := createPending item q
          (effect, { q with
            pendingByScope := q.pendingByScope.insert (approvalScopeKey scope) item.id })

/-- The environment and the queue's listeners, as a call to `enqueue` finds them. -/
structure Surroundings where
  autoDeny : Bool
  autoApprove : Bool
  hasSubscribers : Bool

def enqueue (options : ApprovalQueueOptions) (request : PolicyActionRequest)
    (decision : PolicyDecision) (jobId taskId agentId : Option String) (ttlMs : Option JsNumber)
    (uuid : String) (now : Timestamp) (env : Surroundings) (q : ApprovalQueue) :
    ApprovalEffect × ApprovalQueue :=
  if env.autoDeny then (⟨[], [], .settled false⟩, q)
  else if env.autoApprove && options.allowEnvAutoApprove then (⟨[], [], .settled true⟩, q)
  else if options.autoDenyNonInteractive && !env.hasSubscribers then (⟨[], [], .settled false⟩, q)
  else
    createPending (newItem request decision
      ⟨jobId, taskId, agentId, ttlMs.or options.defaultTimeoutMs, none, none⟩ uuid now) q

/-- `item.resolve(approved, resolvedBy)` of a pending item, with the record it makes. A record that
cannot be made throws, after the request left the queue. -/
def settle (limit : ℕ) (item : PendingApprovalRequest) (approved : Bool) (resolvedBy : Option String)
    (now : Timestamp) (q : ApprovalQueue) : Except String ApprovalRecord × ApprovalQueue :=
  let q := { q with
    pending := q.pending.erase item.id
    pendingByScope := match item.scopeKey with
      | some key => q.pendingByScope.erase key
      | none => q.pendingByScope }
  let who := resolvedBy.getD (if approved then "approver" else "approver_denied")
  let status : ApprovalStatus := if resolvedBy = some "timeout" then .expired
    else if approved then .approved else .denied
  match toRecord item status (some now) (some who) with
  | .error e => (.error e, q)
  | .ok record =>
    (.ok record, { q.remember limit record with unwritten := q.unwritten ++ [record] })

/-- Who learns of a settled request: those that hold its promise. -/
def settledEffect (item : PendingApprovalRequest) (approved : Bool) (answer : ApprovalAnswer) :
    Except String ApprovalRecord → ApprovalEffect
  | .error e => ⟨[], [], .threw e⟩
  | .ok _ => ⟨[], [⟨item.id, item.scopeKey, approved⟩], answer⟩

def find (q : ApprovalQueue) (id : String) : Option ApprovalRecord :=
  q.history.find? (·.id = id)

/-- `resolve` of a request that is not pending. -/
def resolvePast (id : String) (q : ApprovalQueue) : ApprovalResolutionResult :=
  match q.find id with
  | none => .refused .notFound ("approval '" ++ id ++ "' not found") none
  | some past =>
    if past.status = .expired then
      .refused .expired ("approval '" ++ id ++ "' expired") (some past)
    else
      .refused .alreadyResolved ("approval '" ++ id ++ "' was already " ++ past.status.text ++
        " and cannot be replayed") (some past)

/-- `item.expiresAt && item.expiresAt.getTime() <= this.now()` -/
def lapsed (item : PendingApprovalRequest) (now : Timestamp) : Bool :=
  match item.expiresAt with
  | some (some t) => t.1 ≤ now.1
  | _ => false

/-- `{ ok: true, record: this.history.get(id) ?? toRecord(item, …) }` -/
def resolvedAnswer (item : PendingApprovalRequest) (approved : Bool) :
    Option ApprovalRecord → ApprovalAnswer
  | some record => .resolution (.ok record)
  | none =>
    match toRecord item (if approved then .approved else .denied) none none with
    | .ok record => .resolution (.ok record)
    | .error e => .threw e

def resolve (limit : ℕ) (id : String) (approved : Bool) (resolvedBy : Option String)
    (expected : Option PartialScope) (now : Timestamp) (q : ApprovalQueue) :
    ApprovalEffect × ApprovalQueue :=
  match q.pending.lookup id with
  | none => (⟨[], [], .resolution (q.resolvePast id)⟩, q)
  | some item =>
    if lapsed item now then
      let (record, q) := q.settle limit item false (some "timeout") now
      (settledEffect item false
        (.resolution (.refused .expired ("approval '" ++ id ++ "' expired") (q.find id))) record, q)
    else if expected.any fun e => !scopeMatches item.scope e then
      match toRecord item .pending none none with
      | .error e => (⟨[], [], .threw e⟩, q)
      | .ok record =>
        (⟨[], [], .resolution (.refused .scopeMismatch
          ("approval '" ++ id ++ "' is bound to a different scope") (some record))⟩, q)
    else
      let (record, q) := q.settle limit item approved resolvedBy now
      (settledEffect item approved (resolvedAnswer item approved (q.find id)) record, q)

end ApprovalQueue

/-! The queue and its store under a sequence of events. -/

inductive ApprovalEvent where
  | requestScoped (scope : ApprovalScope) (details : ScopedDetails) (uuid : String)
    (now : Timestamp) (autoDeny : Bool)
  | enqueue (request : PolicyActionRequest) (decision : PolicyDecision)
    (jobId taskId agentId : Option String) (ttlMs : Option JsNumber) (uuid : String)
    (now : Timestamp) (env : ApprovalQueue.Surroundings)
  | resolve (id : String) (approved : Bool) (resolvedBy : Option String)
    (expected : Option PartialScope) (now : Timestamp)
  /-- `item.resolve`, by who holds the item, by `approveAll` or `denyAll`, or by its timer. -/
  | settle (id : String) (approved : Bool) (resolvedBy : Option String) (now : Timestamp)
  /-- The next put of `persistChain`. -/
  | write (fails : Bool)
  /-- A new queue on the store, and its `init`. -/
  | restart (now : Timestamp) (listFails : Bool) (putFails : String → Bool)

structure ApprovalSystem where
  queue : ApprovalQueue
  store : ApprovalStore

def emptySystem : ApprovalSystem := ⟨emptyQueue, ∅⟩

structure ApprovalHost where
  options : ApprovalQueueOptions
  localeCompare : String → String → Ordering
  /-- What the store makes of a member of a record. -/
  gives : JsValue → JsValue

namespace ApprovalHost

def listed (host : ApprovalHost) (store : ApprovalStore) : List ApprovalRecord :=
  store.entries.map fun kv => kv.2.reload host.gives

/-- The requests that an `init` finds pending are settled by it. -/
def expiries (entries : List ApprovalRecord) : List Decision :=
  (entries.filter fun r => r.id ≠ "" ∧ r.status = .pending).map fun r => ⟨r.id, r.scopeKey, false⟩

def restart (host : ApprovalHost) (now : Timestamp) (listFails : Bool) (putFails : String → Bool)
    (s : ApprovalSystem) : ApprovalEffect × ApprovalSystem :=
  if listFails then (⟨[], [], .rejected "list failed"⟩, ⟨emptyQueue, s.store⟩)
  else
    match emptyQueue.init host.localeCompare host.options.limit now putFails (host.listed s.store)
        s.store with
    | .error e => (⟨[], [], .rejected e⟩, ⟨emptyQueue, s.store⟩)
    | .ok (queue, store) => (⟨[], expiries (host.listed s.store), .none⟩, ⟨queue, store⟩)

def step (host : ApprovalHost) (event : ApprovalEvent) (s : ApprovalSystem) :
    ApprovalEffect × ApprovalSystem :=
  match event with
  | .requestScoped scope details uuid now autoDeny =>
    let (effect, queue) := s.queue.requestScoped host.options scope details uuid now autoDeny
    (effect, { s with queue := queue })
  | .enqueue request decision jobId taskId agentId ttlMs uuid now env =>
    let (effect, queue) := s.queue.enqueue host.options request decision jobId taskId agentId ttlMs
      uuid now env
    (effect, { s with queue := queue })
  | .resolve id approved resolvedBy expected now =>
    let (effect, queue) := s.queue.resolve host.options.limit id approved resolvedBy expected now
    (effect, { s with queue := queue })
  | .settle id approved resolvedBy now =>
    match s.queue.pending.lookup id with
    | none => (⟨[], [], .none⟩, s)
    | some item =>
      let (record, queue) := s.queue.settle host.options.limit item approved resolvedBy now
      (ApprovalQueue.settledEffect item approved .none record, { s with queue := queue })
  | .write fails =>
    match s.queue.unwritten with
    | [] => (⟨[], [], .none⟩, s)
    | record :: rest =>
      (⟨[], [], .none⟩, ⟨{ s.queue with unwritten := rest },
        if fails then s.store else s.store.insert record.id record⟩)
  | .restart now listFails putFails => host.restart now listFails putFails s

/-- An event, the system it found and what it did. -/
structure Moment where
  event : ApprovalEvent
  before : ApprovalSystem
  effect : ApprovalEffect

def next (host : ApprovalHost) (run : List Moment × ApprovalSystem) (event : ApprovalEvent) :
    List Moment × ApprovalSystem :=
  let (effect, s) := host.step event run.2
  (run.1 ++ [⟨event, run.2, effect⟩], s)

/-- A run from an empty store. -/
def run (host : ApprovalHost) (events : List ApprovalEvent) : List Moment × ApprovalSystem :=
  events.foldl host.next ([], emptySystem)

end ApprovalHost

end Wazir.Core
