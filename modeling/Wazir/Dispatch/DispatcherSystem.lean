import Wazir.Async.Trace
import Wazir.Dispatch.Dispatcher

/-! The dispatcher's procedures over a key-value store whose `update` on one key is atomic: the
record of a request and its pending-index entry are two keys. Any number of dispatchers share
the store; each has its own map of records. The server-sent event streams carry no state and
are left out. The client `dispatchRemote` polls until its deadline, at most `polls` times. -/

namespace Wazir.Dispatch

open Wazir.Async

/-- A constructed dispatcher. -/
structure TaskDispatcher where
  ident : ℕ
  leaseMs : ℤ
  completedRetentionMs : Option ℤ
  /-- The constructor throws `INVALID_LEASE_DURATION` otherwise. -/
  leaseMs_ge : 100 ≤ leaseMs

/-- The store, and each dispatcher's memory: `records` and the settled promise `ready`. -/
structure DispatchShared where
  dispatches : Table RequestId DurableDispatch
  pending : Table RequestId PendingEntry
  records : Table (ℕ × RequestId) DurableDispatch
  ready : Table ℕ (Except String Unit)

structure DispatchStatus where
  events : List WorkerExecutionEvent
  outcome : Option ExecutionOutcome
  orphaned : Bool
  computerId : ComputerId

inductive DispatchOp where
  | now
  | awaitReady (dispatcher : ℕ)
  | setReady (dispatcher : ℕ) (result : Except String Unit)
  | listPending
  | listDispatches
  | getDispatch (id : RequestId)
  | updateDispatch (id : RequestId) (u : RecordUpdate)
  | deleteDispatch (id : RequestId)
  | putPending (id : RequestId) (entry : PendingEntry)
  | deletePending (id : RequestId)
  | recordsOf (dispatcher : ℕ)
  | setRecord (dispatcher : ℕ) (id : RequestId) (record : DurableDispatch)
  | dropRecord (dispatcher : ℕ) (id : RequestId)
  | retainRecords (dispatcher : ℕ) (live : List RequestId)
  | response
  | fetchStatus (id : RequestId)

abbrev DispatchRes : DispatchOp → Type
  | .now => ℤ
  | .awaitReady _ => Except String Unit
  | .setReady _ _ => Unit
  | .listPending => Except String (List (RequestId × PendingEntry))
  | .listDispatches => Except String (List (RequestId × DurableDispatch))
  | .getDispatch _ => Except String (Option DurableDispatch)
  | .updateDispatch _ _ => Except String (DurableDispatch × Bool)
  | .deleteDispatch _ => Except String Unit
  | .putPending _ _ => Except String Unit
  | .deletePending _ => Except String Unit
  | .recordsOf _ => List (RequestId × DurableDispatch)
  | .setRecord _ _ _ => Unit
  | .dropRecord _ _ => Unit
  | .retainRecords _ _ => Unit
  | .response => Except String Unit
  | .fetchStatus _ => Except String (Option DispatchStatus)

/-- `fault` is the error of the store or the network, if there is one; `refused` says that the
server answers a poll with an error status. -/
structure DispatchInput where
  now : ℕ → ℤ
  uuid : String
  fault : Option String
  refused : Bool

def entriesList {κ α : Type} (t : Table κ α) : List (κ × α) := t.entries.map fun kv => (kv.1, kv.2)

def statusOf (r : DurableDispatch) : DispatchStatus :=
  ⟨r.events, r.outcome, r.orphaned, r.computerId⟩

def dispatchExec (op : DispatchOp) (inp : DispatchInput) (s : DispatchShared) :
    Option (DispatchRes op × DispatchShared) :=
  match op with
  | .now => some (inp.now 0, s)
  | .awaitReady d => (s.ready.lookup d).map (·, s)
  | .setReady d result => some ((), { s with ready := s.ready.insert d result })
  | .listPending => some (guarded inp.fault (entriesList s.pending), s)
  | .listDispatches => some (guarded inp.fault (entriesList s.dispatches), s)
  | .getDispatch id => some (guarded inp.fault (s.dispatches.lookup id), s)
  | .updateDispatch id u =>
    match guarded inp.fault () with
    | .error e => some (.error e, s)
    | .ok _ =>
      match u.apply inp.now inp.uuid (s.dispatches.lookup id) with
      | .error e => some (.error e, s)
      | .ok out => some (.ok out, { s with dispatches := s.dispatches.insert id out.1 })
  | .deleteDispatch id =>
    match guarded inp.fault () with
    | .error e => some (.error e, s)
    | .ok _ => some (.ok (), { s with dispatches := s.dispatches.erase id })
  | .putPending id entry =>
    match guarded inp.fault () with
    | .error e => some (.error e, s)
    | .ok _ => some (.ok (), { s with pending := s.pending.insert id entry })
  | .deletePending id =>
    match guarded inp.fault () with
    | .error e => some (.error e, s)
    | .ok _ => some (.ok (), { s with pending := s.pending.erase id })
  | .recordsOf d =>
    some ((entriesList s.records).filterMap fun kv =>
      if kv.1.1 = d then some (kv.1.2, kv.2) else none, s)
  | .setRecord d id record => some ((), { s with records := s.records.insert (d, id) record })
  | .dropRecord d id => some ((), { s with records := s.records.erase (d, id) })
  | .retainRecords d live =>
    let stale := s.records.keys.filter fun k => k.1 = d ∧ k.2 ∉ live
    some ((), { s with records := stale.foldl (fun m k => m.erase k) s.records })
  | .response => some (guarded inp.fault (), s)
  | .fetchStatus id =>
    some (guarded inp.fault (if inp.refused then none else (s.dispatches.lookup id).map statusOf), s)

/-- Only two commands write a record, -/
theorem dispatchExec_dispatches {op : DispatchOp} {inp : DispatchInput} {s s' : DispatchShared}
    {r : DispatchRes op} (h : dispatchExec op inp s = some (r, s'))
    (hu : ∀ id u, op ≠ .updateDispatch id u) (hd : ∀ id, op ≠ .deleteDispatch id) :
    s'.dispatches = s.dispatches := by
  cases op with
  | updateDispatch id u => exact absurd rfl (hu id u)
  | deleteDispatch id => exact absurd rfl (hd id)
  | putPending id entry =>
    simp only [dispatchExec] at h
    split at h <;> cases h <;> rfl
  | deletePending id =>
    simp only [dispatchExec] at h
    split at h <;> cases h <;> rfl
  | awaitReady d =>
    obtain ⟨_, -, h⟩ := Option.map_eq_some_iff.mp h
    cases h
    rfl
  | _ =>
    simp only [dispatchExec] at h
    cases h
    rfl

/-- and only two others an entry of the pending index. -/
theorem dispatchExec_pending {op : DispatchOp} {inp : DispatchInput} {s s' : DispatchShared}
    {r : DispatchRes op} (h : dispatchExec op inp s = some (r, s'))
    (hp : ∀ id entry, op ≠ .putPending id entry) (hd : ∀ id, op ≠ .deletePending id) :
    s'.pending = s.pending := by
  cases op with
  | putPending id entry => exact absurd rfl (hp id entry)
  | deletePending id => exact absurd rfl (hd id)
  | updateDispatch id u =>
    simp only [dispatchExec] at h
    split at h
    · cases h
      rfl
    · split at h <;> cases h <;> rfl
  | deleteDispatch id =>
    simp only [dispatchExec] at h
    split at h <;> cases h <;> rfl
  | awaitReady d =>
    obtain ⟨_, -, h⟩ := Option.map_eq_some_iff.mp h
    cases h
    rfl
  | _ =>
    simp only [dispatchExec] at h
    cases h
    rfl

abbrev DispatchProg := Prog DispatchOp DispatchRes String

namespace TaskDispatcher

def now : DispatchProg ℤ := .call .now .ret

def getDispatch (id : RequestId) : DispatchProg (Option DurableDispatch) :=
  .call (.getDispatch id) .resume

def update (id : RequestId) (u : RecordUpdate) : DispatchProg (DurableDispatch × Bool) :=
  .call (.updateDispatch id u) .resume

def putPending (id : RequestId) (entry : PendingEntry) : DispatchProg Unit :=
  .call (.putPending id entry) .resume

def deletePending (id : RequestId) : DispatchProg Unit := .call (.deletePending id) .resume

def deleteDispatch (id : RequestId) : DispatchProg Unit := .call (.deleteDispatch id) .resume

def listPending : DispatchProg (List (RequestId × PendingEntry)) := .call .listPending .resume

def listDispatches : DispatchProg (List (RequestId × DurableDispatch)) :=
  .call .listDispatches .resume

def setRecord (d : TaskDispatcher) (id : RequestId) (r : DurableDispatch) : DispatchProg Unit :=
  .call (.setRecord d.ident id r) .ret

def dropRecord (d : TaskDispatcher) (id : RequestId) : DispatchProg Unit :=
  .call (.dropRecord d.ident id) .ret

def awaitReady (d : TaskDispatcher) : DispatchProg Unit := .call (.awaitReady d.ident) .resume

/-- `this.completedRetentionMs ? this.now() - this.completedRetentionMs : undefined`. -/
def retentionCutoff (d : TaskDispatcher) : DispatchProg (Option ℤ) := do
  match d.completedRetentionMs.filter (· ≠ 0) with
  | none => return none
  | some retentionMs =>
    let t ← now
    return some (t - retentionMs)

def reconcileIndexFrom (indexed : List RequestId) (cutoff : Option ℤ) :
    List (RequestId × DurableDispatch) → DispatchProg Unit
  | [] => return
  | (_, record) :: rest => do
    let id := record.request.requestId
    if record.outcome = none then
      if id ∈ indexed then reconcileIndexFrom indexed cutoff rest
      else
        let t ← now
        putPending id ⟨record.computerId, t⟩
        reconcileIndexFrom indexed cutoff rest
    else if cutoff.any fun c => record.completedAt.any (· < c) then
      deleteDispatch id
      reconcileIndexFrom indexed cutoff rest
    else reconcileIndexFrom indexed cutoff rest

def reconcileIndex (d : TaskDispatcher) : DispatchProg Unit := do
  let indexed ← listPending
  let cutoff ← d.retentionCutoff
  let dispatches ← listDispatches
  reconcileIndexFrom (indexed.map Prod.fst) cutoff dispatches

def refreshFrom (d : TaskDispatcher) :
    List RequestId → List (RequestId × PendingEntry) → DispatchProg Unit
  | live, [] => .call (.retainRecords d.ident live) .ret
  | live, (id, entry) :: rest => do
    match ← getDispatch id with
    | none =>
      let t ← now
      if t - entry.at_ > orphanPendingIndexMs then
        deletePending id
        refreshFrom d live rest
      else refreshFrom d live rest
    | some record =>
      if record.outcome.isSome then
        deletePending id
        refreshFrom d live rest
      else
        d.setRecord id record
        refreshFrom d (live ++ [id]) rest

def refresh (d : TaskDispatcher) : DispatchProg Unit := do
  let pending ← listPending
  refreshFrom d [] pending

/-- The promise `ready`, settled. -/
def start (d : TaskDispatcher) : DispatchProg Unit :=
  (do reconcileIndex d; refresh d : DispatchProg Unit).settle fun result =>
    .call (.setReady d.ident result) .ret

inductive DispatchResult where
  | ok
  | busy (reason : String)
  deriving DecidableEq

def dispatch (d : TaskDispatcher) (computerId : ComputerId) (request : WorkerExecutionRequest) :
    DispatchProg DispatchResult := do
  d.awaitReady
  d.refresh
  let records ← (Prog.call (.recordsOf d.ident) .ret : DispatchProg (List (RequestId × DurableDispatch)))
  if maxQueuedPerComputer ≤
      (records.filter fun kv => kv.2.computerId = computerId ∧ kv.2.outcome = none).length then
    return .busy "RESOURCE_BUSY"
  else
    (do let t ← now
        putPending request.requestId ⟨computerId, t⟩
        let record ← update request.requestId (.create computerId request)
        d.setRecord request.requestId record.1
        return .ok : DispatchProg DispatchResult).handle fun e =>
      if e = "REQUEST_ALREADY_DISPATCHED" then .ret (.busy e) else .raise e

structure Claimed where
  token : String
  expiresAt : ℤ
  leaseMs : ℤ
  attempt : ℕ

def claim (d : TaskDispatcher) (id : RequestId) (computerId : ComputerId) :
    DispatchProg Claimed := do
  let r ← update id (.claim computerId d.leaseMs)
  if r.1.outcome.isSome then
    d.dropRecord id
    deletePending id
    .raise "RESOURCE_BUSY"
  else
    d.setRecord id r.1
    match r.1.lease with
    | some l => return ⟨l.token, l.expiresAt, d.leaseMs, r.1.attempt⟩
    | none => .raise "undefined lease"

/-- The checks `reconcile` makes before it updates. -/
def passedOver (r : DurableDispatch) (offline : List ComputerId) (now : ℤ) : Bool :=
  r.leaseLive now ||
    (r.outcome = none && !r.unrepeatable && (r.computerId ∉ offline || r.orphaned))

def reconcileFrom (d : TaskDispatcher) (offline : List ComputerId) :
    List (RequestId × PendingEntry) → DispatchProg Unit
  | [] => return
  | (id, _) :: rest => do
    match ← getDispatch id with
    | none => reconcileFrom d offline rest
    | some candidate =>
      let t ← now
      if passedOver candidate offline t then reconcileFrom d offline rest
      else
        let record ← ((fun r => some r.1) <$> update id (.reconcile offline) :
            DispatchProg (Option DurableDispatch)).handle fun e =>
          if e = "UNKNOWN_DISPATCH" then .ret none else .raise e
        if record.any fun r => r.outcome.isSome then
          d.dropRecord id
          deletePending id
          reconcileFrom d offline rest
        else reconcileFrom d offline rest

def reconcile (d : TaskDispatcher) (offline : List ComputerId) : DispatchProg Unit := do
  d.awaitReady
  let pending ← listPending
  reconcileFrom d offline pending

def redeliver (d : TaskDispatcher) : DispatchProg Unit := do
  d.reconcile []
  d.refresh

def pruneFrom (cutoff : ℤ) (pruned : ℕ) : List (RequestId × DurableDispatch) → DispatchProg ℕ
  | [] => return pruned
  | (id, record) :: rest => do
    if record.outcome.isSome ∧ record.completedAt.any (· ≤ cutoff) then
      deleteDispatch id
      pruneFrom cutoff (pruned + 1) rest
    else pruneFrom cutoff pruned rest

def pruneCompleted (d : TaskDispatcher) (retentionMs : Option ℤ) : DispatchProg ℕ := do
  let t ← now
  let dispatches ← listDispatches
  pruneFrom (t - retentionMs.getD (d.completedRetentionMs.getD 0)) 0 dispatches

def cancel (d : TaskDispatcher) (id : RequestId) : DispatchProg Unit := do
  let _ ← update id .cancel
  d.dropRecord id
  deletePending id

def reassign (d : TaskDispatcher) (id : RequestId) (computerId : ComputerId) :
    DispatchProg Unit := do
  d.reconcile []
  let r ← update id (.reassign computerId)
  d.setRecord id r.1
  d.redeliver

def renew (d : TaskDispatcher) (id : RequestId) (token : String) : DispatchProg Unit := do
  let r ← update id (.renew token d.leaseMs)
  d.setRecord id r.1

def recordEvent (d : TaskDispatcher) (id : RequestId) (event : WorkerExecutionEvent)
    (token : String) : DispatchProg Bool := do
  let r ← update id (.recordEvent event token)
  d.setRecord id r.1
  return true

/-- `true` for `committed`, `false` for `duplicate`. -/
def commit (d : TaskDispatcher) (id : RequestId) (outcome : ExecutionOutcome) (token : String) :
    DispatchProg Bool := do
  let r ← update id (.commit outcome token)
  d.dropRecord id
  deletePending id
  return r.2

def status (id : RequestId) : DispatchProg (Option DispatchStatus) := do
  let r ← getDispatch id
  return r.map statusOf

/-- `CONTROL_PLANE_EVENT_TYPES`. -/
def controlPlane (e : WorkerExecutionEvent) : Bool :=
  e.type = .leaseAcquired || e.type = .leaseRenewed

/-- The polling loop of `dispatchRemote`; `yielded` is what the generator has yielded. -/
def pollFrom (id : RequestId) (deadline : ℤ) :
    ℕ → ℕ → List WorkerExecutionEvent → DispatchProg (List WorkerExecutionEvent × ExecutionOutcome)
  | 0, _, _ => .raise "timed out waiting for a result"
  | polls + 1, seen, yielded => do
    let t ← now
    if deadline < t then .raise "timed out waiting for a result"
    else
      match ← (Prog.call (.fetchStatus id) .resume : DispatchProg (Option DispatchStatus)) with
      | none => pollFrom id deadline polls seen yielded
      | some status =>
        let yielded := yielded ++ (status.events.drop seen).filter fun e => !controlPlane e
        match status.outcome with
        | some outcome => return (yielded, outcome)
        | none => pollFrom id deadline polls (max seen status.events.length) yielded

def dispatchRemote (d : TaskDispatcher) (computerId : ComputerId)
    (request : WorkerExecutionRequest) (timeoutMs : ℤ) (polls : ℕ) :
    DispatchProg (List WorkerExecutionEvent × ExecutionOutcome) := do
  match ← d.dispatch computerId request with
  | .busy reason => .raise reason
  | .ok =>
    (.call .response .resume : DispatchProg Unit)
    let t ← now
    pollFrom request.requestId (t + timeoutMs) polls 0 []

end TaskDispatcher

/-! Any number of dispatchers, workers, operators and clients. -/

inductive DispatchCall where
  | start
  | dispatch (computerId : ComputerId) (request : WorkerExecutionRequest)
  | claim (id : RequestId) (computerId : ComputerId)
  | reconcile (offline : List ComputerId)
  | redeliver
  | pruneCompleted (retentionMs : Option ℤ)
  | cancel (id : RequestId)
  | reassign (id : RequestId) (computerId : ComputerId)
  | renew (id : RequestId) (token : String)
  | recordEvent (id : RequestId) (event : WorkerExecutionEvent) (token : String)
  | commit (id : RequestId) (outcome : ExecutionOutcome) (token : String)
  | status (id : RequestId)
  | dispatchRemote (computerId : ComputerId) (request : WorkerExecutionRequest) (timeoutMs : ℤ)
      (polls : ℕ)

inductive DispatchReply where
  | done
  | dispatched (result : TaskDispatcher.DispatchResult)
  | claimed (c : TaskDispatcher.Claimed)
  | pruned (n : ℕ)
  | flag (b : Bool)
  | status (s : Option DispatchStatus)
  | streamed (yielded : List WorkerExecutionEvent) (outcome : ExecutionOutcome)

def DispatchCall.body (d : TaskDispatcher) : DispatchCall → DispatchProg DispatchReply
  | .start => (fun _ => DispatchReply.done) <$> d.start
  | .dispatch computerId request => DispatchReply.dispatched <$> d.dispatch computerId request
  | .claim id computerId => DispatchReply.claimed <$> d.claim id computerId
  | .reconcile offline => (fun _ => DispatchReply.done) <$> d.reconcile offline
  | .redeliver => (fun _ => DispatchReply.done) <$> d.redeliver
  | .pruneCompleted retentionMs => DispatchReply.pruned <$> d.pruneCompleted retentionMs
  | .cancel id => (fun _ => DispatchReply.done) <$> d.cancel id
  | .reassign id computerId => (fun _ => DispatchReply.done) <$> d.reassign id computerId
  | .renew id token => (fun _ => DispatchReply.done) <$> d.renew id token
  | .recordEvent id event token => DispatchReply.flag <$> d.recordEvent id event token
  | .commit id outcome token => DispatchReply.flag <$> d.commit id outcome token
  | .status id => DispatchReply.status <$> TaskDispatcher.status id
  | .dispatchRemote computerId request timeoutMs polls =>
    (fun r => DispatchReply.streamed r.1 r.2) <$> d.dispatchRemote computerId request timeoutMs polls

/-- A call, the dispatcher it is made on and the process that runs it. -/
structure DispatchRequest where
  process : ℕ
  dispatcher : TaskDispatcher
  call : DispatchCall

def dispatchSystem : System DispatchOp DispatchRes String DispatchReply DispatchRequest ℕ
    DispatchInput DispatchShared where
  body r := r.call.body r.dispatcher
  proc := DispatchRequest.process
  exec := dispatchExec
  admits _ s := some s
  crash _ s := s

/-! Only `dispatch` creates a record, and only pruning deletes one. -/

def plain : DispatchOp → Prop
  | .deleteDispatch _ => False
  | .updateDispatch _ (.create _ _) => False
  | _ => True

def DispatchCall.prunes : DispatchCall → Bool
  | .start => true
  | .pruneCompleted _ => true
  | _ => false

def DispatchCall.dispatches : DispatchCall → Bool
  | .dispatch _ _ => true
  | .dispatchRemote _ _ _ _ => true
  | _ => false

/-- The commands that a call may execute. -/
def DispatchCall.may (c : DispatchCall) : DispatchOp → Prop
  | .deleteDispatch _ => c.prunes
  | .updateDispatch _ (.create _ _) => c.dispatches
  | _ => True

variable {c : DispatchCall}

theorem may_of_plain (op : DispatchOp) (h : plain op) : c.may op := by
  cases op with
  | updateDispatch id u => cases u <;> trivial
  | _ => trivial

namespace TaskDispatcher

theorem refreshFrom_plain (d : TaskDispatcher) (live : List RequestId)
    (pending : List (RequestId × PendingEntry)) : (refreshFrom d live pending).Only plain := by
  induction pending generalizing live with
  | nil => simp [refreshFrom, plain]
  | cons p rest ih =>
    refine Prog.Only.bind ⟨trivial, fun _ => Prog.only_resume⟩ fun r => ?_
    cases r with
    | none =>
      refine Prog.Only.bind ⟨trivial, fun _ => trivial⟩ fun t => ?_
      split_ifs
      · exact Prog.Only.bind ⟨trivial, fun _ => Prog.only_resume⟩ fun _ => ih live
      · exact ih live
    | some record =>
      dsimp only
      split_ifs
      · exact Prog.Only.bind ⟨trivial, fun _ => Prog.only_resume⟩ fun _ => ih live
      · exact Prog.Only.bind ⟨trivial, fun _ => trivial⟩ fun _ => ih _

theorem refresh_plain (d : TaskDispatcher) : d.refresh.Only plain :=
  Prog.Only.bind ⟨trivial, fun _ => Prog.only_resume⟩ fun _ => refreshFrom_plain d [] _

theorem reconcileFrom_plain (d : TaskDispatcher) (offline : List ComputerId)
    (pending : List (RequestId × PendingEntry)) : (reconcileFrom d offline pending).Only plain := by
  induction pending with
  | nil => trivial
  | cons p rest ih =>
    refine Prog.Only.bind ⟨trivial, fun _ => Prog.only_resume⟩ fun r => ?_
    cases r with
    | none => exact ih
    | some candidate =>
      refine Prog.Only.bind ⟨trivial, fun _ => trivial⟩ fun t => ?_
      split_ifs
      · exact ih
      · refine Prog.Only.bind (Prog.Only.handle (Prog.Only.bind ⟨trivial, fun _ => Prog.only_resume⟩
          fun _ => trivial) fun e => ?_) fun record => ?_
        · split_ifs <;> trivial
        · split_ifs
          · exact Prog.Only.bind ⟨trivial, fun _ => trivial⟩ fun _ =>
              Prog.Only.bind ⟨trivial, fun _ => Prog.only_resume⟩ fun _ => ih
          · exact ih

theorem reconcile_plain (d : TaskDispatcher) (offline : List ComputerId) :
    (d.reconcile offline).Only plain :=
  Prog.Only.bind ⟨trivial, fun _ => Prog.only_resume⟩ fun _ =>
    Prog.Only.bind ⟨trivial, fun _ => Prog.only_resume⟩ fun _ => reconcileFrom_plain d offline _

theorem redeliver_plain (d : TaskDispatcher) : d.redeliver.Only plain :=
  Prog.Only.bind (reconcile_plain d []) fun _ => refresh_plain d

theorem pollFrom_plain (id : RequestId) (deadline : ℤ) (polls seen : ℕ)
    (yielded : List WorkerExecutionEvent) : (pollFrom id deadline polls seen yielded).Only plain := by
  induction polls generalizing seen yielded with
  | zero => trivial
  | succ polls ih =>
    refine Prog.Only.bind ⟨trivial, fun _ => trivial⟩ fun t => ?_
    split_ifs
    · trivial
    · refine Prog.Only.bind ⟨trivial, fun _ => Prog.only_resume⟩ fun r => ?_
      cases r with
      | none => exact ih seen yielded
      | some status =>
        dsimp only
        split
        · trivial
        · exact ih _ _

/-- `putPending`, then `create`, are the two writes of a dispatch. -/
theorem dispatch_may (d : TaskDispatcher) (computerId : ComputerId)
    (request : WorkerExecutionRequest) (hc : c.dispatches) :
    (d.dispatch computerId request).Only c.may := by
  refine Prog.Only.bind ⟨trivial, fun _ => Prog.only_resume⟩ fun _ =>
    Prog.Only.bind ((refresh_plain d).mono may_of_plain) fun _ =>
      Prog.Only.bind ⟨trivial, fun _ => trivial⟩ fun records => ?_
  split_ifs
  · trivial
  · refine Prog.Only.handle (Prog.Only.bind ⟨trivial, fun _ => trivial⟩ fun t =>
      Prog.Only.bind ⟨trivial, fun _ => Prog.only_resume⟩ fun _ =>
        Prog.Only.bind ⟨hc, fun _ => Prog.only_resume⟩ fun _ =>
          Prog.Only.bind ⟨trivial, fun _ => trivial⟩ fun _ => trivial) fun e => ?_
    split_ifs <;> trivial

theorem reconcileIndexFrom_may (indexed : List RequestId) (cutoff : Option ℤ)
    (dispatches : List (RequestId × DurableDispatch)) (hc : c.prunes) :
    (reconcileIndexFrom indexed cutoff dispatches).Only c.may := by
  induction dispatches with
  | nil => trivial
  | cons p rest ih =>
    simp only [reconcileIndexFrom]
    split_ifs
    · exact ih
    · exact Prog.Only.bind ⟨trivial, fun _ => trivial⟩ fun _ =>
        Prog.Only.bind ⟨trivial, fun _ => Prog.only_resume⟩ fun _ => ih
    · exact Prog.Only.bind ⟨hc, fun _ => Prog.only_resume⟩ fun _ => ih
    · exact ih

theorem retentionCutoff_plain (d : TaskDispatcher) : d.retentionCutoff.Only plain := by
  unfold retentionCutoff
  split
  · trivial
  · exact Prog.Only.bind ⟨trivial, fun _ => trivial⟩ fun _ => trivial

theorem start_may (d : TaskDispatcher) (hc : c.prunes) : d.start.Only c.may := by
  refine Prog.Only.settle (Prog.Only.bind (Prog.Only.bind ⟨trivial, fun _ => Prog.only_resume⟩
    fun indexed => Prog.Only.bind ((retentionCutoff_plain d).mono may_of_plain) fun cutoff =>
      Prog.Only.bind ⟨trivial, fun _ => Prog.only_resume⟩ fun dispatches =>
        reconcileIndexFrom_may _ _ _ hc) fun _ => (refresh_plain d).mono may_of_plain) fun _ => ?_
  exact ⟨trivial, fun _ => trivial⟩

theorem pruneFrom_may (cutoff : ℤ) (pruned : ℕ) (dispatches : List (RequestId × DurableDispatch))
    (hc : c.prunes) : (pruneFrom cutoff pruned dispatches).Only c.may := by
  induction dispatches generalizing pruned with
  | nil => trivial
  | cons p rest ih =>
    simp only [pruneFrom]
    split_ifs
    · exact Prog.Only.bind ⟨hc, fun _ => Prog.only_resume⟩ fun _ => ih _
    · exact ih _

end TaskDispatcher

open TaskDispatcher in
theorem DispatchCall.body_may (d : TaskDispatcher) (c : DispatchCall) : (c.body d).Only c.may := by
  have returns {α : Type} {p : DispatchProg α} {f : α → DispatchReply} (hp : p.Only c.may) :
      (f <$> p).Only c.may := Prog.Only.bind hp fun _ => trivial
  have stays {α : Type} {p : DispatchProg α} {f : α → DispatchReply} (hp : p.Only plain) :
      (f <$> p).Only c.may := returns (hp.mono may_of_plain)
  cases c with
  | start => exact returns (start_may d rfl)
  | dispatch computerId request => exact returns (dispatch_may d computerId request rfl)
  | claim id computerId =>
    refine stays (Prog.Only.bind ⟨trivial, fun _ => Prog.only_resume⟩ fun r => ?_)
    split_ifs
    · exact Prog.Only.bind ⟨trivial, fun _ => trivial⟩ fun _ =>
        Prog.Only.bind ⟨trivial, fun _ => Prog.only_resume⟩ fun _ => trivial
    · refine Prog.Only.bind ⟨trivial, fun _ => trivial⟩ fun _ => ?_
      split <;> trivial
  | reconcile offline => exact stays (reconcile_plain d offline)
  | redeliver => exact stays (redeliver_plain d)
  | pruneCompleted retentionMs =>
    exact returns (Prog.Only.bind ⟨trivial, fun _ => trivial⟩ fun _ =>
      Prog.Only.bind ⟨trivial, fun _ => Prog.only_resume⟩ fun _ => pruneFrom_may _ _ _ rfl)
  | cancel id =>
    exact stays (Prog.Only.bind ⟨trivial, fun _ => Prog.only_resume⟩ fun _ =>
      Prog.Only.bind ⟨trivial, fun _ => trivial⟩ fun _ => ⟨trivial, fun _ => Prog.only_resume⟩)
  | reassign id computerId =>
    exact stays (Prog.Only.bind (reconcile_plain d []) fun _ =>
      Prog.Only.bind ⟨trivial, fun _ => Prog.only_resume⟩ fun _ =>
        Prog.Only.bind ⟨trivial, fun _ => trivial⟩ fun _ => redeliver_plain d)
  | renew id token =>
    exact stays (Prog.Only.bind ⟨trivial, fun _ => Prog.only_resume⟩ fun _ =>
      ⟨trivial, fun _ => trivial⟩)
  | recordEvent id event token =>
    exact stays (Prog.Only.bind ⟨trivial, fun _ => Prog.only_resume⟩ fun _ =>
      Prog.Only.bind ⟨trivial, fun _ => trivial⟩ fun _ => trivial)
  | commit id outcome token =>
    exact stays (Prog.Only.bind ⟨trivial, fun _ => Prog.only_resume⟩ fun _ =>
      Prog.Only.bind ⟨trivial, fun _ => trivial⟩ fun _ =>
        Prog.Only.bind ⟨trivial, fun _ => Prog.only_resume⟩ fun _ => trivial)
  | status id =>
    exact stays (Prog.Only.bind ⟨trivial, fun _ => Prog.only_resume⟩ fun _ => trivial)
  | dispatchRemote computerId request timeoutMs polls =>
    refine returns (Prog.Only.bind (dispatch_may d computerId request rfl) fun result => ?_)
    cases result with
    | busy reason => trivial
    | ok =>
      exact Prog.Only.bind ⟨trivial, fun _ => Prog.only_resume⟩ fun _ =>
        Prog.Only.bind ⟨trivial, fun _ => trivial⟩ fun _ =>
          (pollFrom_plain _ _ _ _ _).mono may_of_plain

abbrev DispatchEntry := Entry DispatchOp DispatchRes DispatchRequest DispatchInput DispatchShared
abbrev DispatchHist := Hist DispatchOp DispatchRes DispatchRequest ℕ DispatchInput DispatchShared
abbrev DispatchConfig :=
  Config DispatchOp DispatchRes String DispatchReply DispatchRequest ℕ DispatchInput DispatchShared

def emptyDispatches : DispatchShared := ⟨∅, ∅, ∅, ∅⟩

end Wazir.Dispatch
