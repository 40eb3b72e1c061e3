import Wazir.Jobs.Job

/-! The atomic updates of `services/jobManager.ts`. An update is a function of the stored job, of
what its manager holds in memory and of the clock; the clock is read once for each. -/

namespace Wazir.Jobs

open Wazir.Core

/-- `ownership && ownership.expiresAt > now` -/
def leased (job : Job) (now : ℤ) : Bool := job.ownership.any (now < ·.expiresAt)

/-- A manager's owner id and, for one job, the epoch that it has claimed. -/
structure Claim where
  ownerId : String
  epoch : Option ℕ
  deriving DecidableEq

def assertOwnership (claim : Claim) (now : ℤ) (current : Option Job) : Except String Unit :=
  match current.bind (·.ownership) with
  | none => .error "JOB_LEASE_LOST"
  | some o =>
    if o.ownerId ≠ claim.ownerId ∨ some o.epoch ≠ claim.epoch ∨ o.expiresAt ≤ now then
      .error "JOB_LEASE_LOST"
    else .ok ()

/-! Writing the cached job. -/

/-- Who holds a claim needs its lease; who holds none needs that nobody has one. -/
def claimCheck (claim : Claim) (now : ℤ) (current : Job) : Except String Unit :=
  if claim.epoch.isSome then assertOwnership claim now (some current)
  else if leased current now then .error "JOB_LEASE_BUSY"
  else .ok ()

/-- The checks of `flush`. -/
def flushCheck (claim : Claim) (now : ℤ) (job : Job) : Option Job → Except String Unit
  | none => .ok ()
  | some current => do
    claimCheck claim now current
    if current.revision = job.revision then .ok () else .error "JOB_REVISION_CONFLICT"

/-- `job.revision = (current?.revision ?? 0) + 1`, on the cached job. -/
def advance (job : Job) (current : Option Job) : Job :=
  { job with revision := some ((current.bind (·.revision)).getD 0 + 1) }

/-- What `flush` stores: the cached job, under the stored one's control and ownership. -/
def stamped (job : Job) (current : Option Job) : Job :=
  { job with
    control := (current.bind (·.control)).or job.control
    ownership := (current.bind (·.ownership)).or job.ownership }

/-! Leases. -/

/-- A tool call whose outcome is unknown. -/
structure UnknownCall where
  tool : String
  callId : String

def orphanPrefix : String := "Orphaned:"

def orphaned (n : JobNode) : Bool :=
  n.state = .failed && n.error.any fun e => orphanPrefix.toList.isPrefixOf e.toList

/-- The lease ran out after a loader had failed the job's running tasks. -/
def hasExpiredLeaseOrphan (now : ℤ) (job : Job) : Bool :=
  job.status = .failed && job.ownership.any (fun o => 0 < o.expiresAt && o.expiresAt ≤ now) &&
    job.graph.nodes.any orphaned

def unknownOutcome (u : UnknownCall) : String :=
  "UNKNOWN_MUTATION_OUTCOME: tool '" ++ u.tool ++ "' (call '" ++ u.callId ++
    "') has no confirmed outcome; refusing automatic replay"

/-- A node whose owner is gone is failed, or tried again, with what its task becomes. -/
def recoverNode (now : ℤ) (maxRetries : ℕ) (unknown : Option UnknownCall) (n : JobNode) :
    JobNode × TaskStatus :=
  let retries := n.retryCount.getD 0 + 1
  let attempt := fun error => (⟨.failed, some error, n.executedAt, some now⟩ : NodeAttempt)
  match unknown with
  | some u =>
    ({ n with
      attempts := n.attempts ++ [attempt (unknownOutcome u)], retryCount := some retries
      state := .failed, error := some (unknownOutcome u)
      completedAt := n.completedAt.or (some now) }, .failed)
  | none =>
    if retries ≤ maxRetries then
      ({ n with
        attempts := n.attempts ++ [attempt "OWNER_LEASE_EXPIRED"], retryCount := some retries
        state := .idle, error := none, completedAt := none }, .pending)
    else
      ({ n with
        attempts := n.attempts ++ [attempt "OWNER_LEASE_EXPIRED"], retryCount := some retries
        state := .failed, error := some "RETRY_LIMIT_EXCEEDED" }, .failed)

/-- The loop of `acquire` over the nodes. -/
def recoverNodes (now : ℤ) (maxRetries : ℕ) (orphans : Bool)
    (unknownByTask : List (String × UnknownCall)) :
    List JobNode → List Task → List JobNode × List Task
  | [], tasks => ([], tasks)
  | n :: rest, tasks =>
    if n.state = .running ∨ n.state = .assigned ∨ (orphans = true ∧ orphaned n = true) then
      let (n', status) := recoverNode now maxRetries (unknownByTask.lookup n.task) n
      let (nodes, tasks) := recoverNodes now maxRetries orphans unknownByTask rest
        (updateFirst (·.id = n.task) (fun t => { t with status := status }) tasks)
      (n' :: nodes, tasks)
    else
      let (nodes, tasks) := recoverNodes now maxRetries orphans unknownByTask rest tasks
      (n :: nodes, tasks)

def terminalTasks (job : Job) : Bool := job.tasks.all (·.status ∈ terminalTask)

/-- What `acquire` makes of the status. -/
def acquiredStatus (now : ℤ) (orphans : Bool) (job : Job) : Job :=
  if job.tasks ≠ [] ∧ terminalTasks job = true then
    if job.tasks.any (·.status = .failed) then
      { job with status := .failed, completedAt := job.completedAt.or (some now) }
    else job
  else if orphans = true ∧ job.tasks.any (·.status = .pending) = true then
    { job with status := .running, completedAt := none }
  else job

def acquireUpdate (ownerId : String) (leaseMs now : ℤ) (unknownByTask : List (String × UnknownCall)) :
    Option Job → Except String Job
  | none => .error "JOB_NOT_FOUND"
  | some current =>
    let orphans := hasExpiredLeaseOrphan now current
    if current.status ∈ terminalJob ∧ orphans = false then .error "JOB_TERMINAL"
    else if leased current now then .error "JOB_LEASE_BUSY"
    else
      let (nodes, tasks) := recoverNodes now (current.maxRetries.getD 3) orphans unknownByTask
        current.graph.nodes current.tasks
      .ok (acquiredStatus now orphans { current.setNodes nodes with
        tasks := tasks
        ownership := some ⟨ownerId, ((current.ownership.map (·.epoch)).getD 0) + 1, now + leaseMs⟩ })

/-- `renew` and `release`: the lease of the holder ends at another time. -/
def leaseUpdate (claim : Claim) (now expiresAt : ℤ) (current : Option Job) : Except String Job := do
  assertOwnership claim now current
  match current with
  | none => .error "JOB_LEASE_LOST"
  | some job => return { job with ownership := job.ownership.map fun o => { o with expiresAt := expiresAt } }

/-- `cancel` by a manager that has not claimed the job. -/
def cancelUpdate (now : ℤ) : Option Job → Except String Job
  | none => .error "JOB_NOT_FOUND"
  | some current =>
    if current.status ∈ terminalJob then
      .error ("Cannot cancel job in terminal status '" ++ jobStatusText current.status ++ "'")
    else if leased current now then .ok { current with control := some now }
    else
      .ok { current.setNodes (current.graph.nodes.map fun n =>
            if n.state = .completed ∨ n.state = .failed then n else { n with state := .cancelled }) with
        status := .cancelled
        completedAt := some now
        revision := some (current.revision.getD 0 + 1)
        tasks := current.tasks.map fun t =>
          if t.status = .completed ∨ t.status = .failed then t else { t with status := .cancelled } }

/-- `pause` by a manager that has not claimed the job. -/
def pauseUpdate : Option Job → Except String Job
  | none => .error "JOB_NOT_FOUND"
  | some current =>
    if current.status ∈ [.pending, .planning, .ready, .running] then
      .ok { current with status := .paused, revision := some (current.revision.getD 0 + 1) }
    else .error ("Cannot pause job in status '" ++ jobStatusText current.status ++ "'")

/-! Loading. -/

def orphanError : String := "Orphaned: the process running this task ended before it finished"

/-- A node whose process is gone. -/
def orphanNode (now : ℤ) (n : JobNode) : JobNode :=
  { n with
    state := .failed, error := n.error.or (some orphanError)
    completedAt := n.completedAt.or (some now) }

/-- The tasks that are still running are failed, each with its node. -/
def orphanTasks (now : ℤ) (job : Job) : Job :=
  let nodes := job.tasks.foldl (fun nodes t =>
    if t.status = .running then
      updateFirst (·.isFor t.id) (fun n => if n.state ∈ terminalNode then n else orphanNode now n) nodes
    else nodes) job.graph.nodes
  { job.setNodes (nodes.map fun n => if n.state = .running then orphanNode now n else n) with
    tasks := job.tasks.map fun t => if t.status = .running then { t with status := .failed } else t }

/-- What the tasks say of a job that ended. -/
def inferredStatus (job : Job) : JobStatus :=
  if job.tasks.any (·.status = .failed) then .failed
  else if job.tasks.any (·.status = .cancelled) then .cancelled
  else .completed

/-- The latest `completedAt` of the nodes. -/
def latestCompletion (job : Job) : Option ℤ :=
  job.graph.nodes.foldl (fun latest n =>
    match n.completedAt, latest with
    | some t, some s => some (if s < t then t else s)
    | some t, none => some t
    | none, _ => latest) none

/-- `reconcileStaleStatus`, with the job that it writes, if any. -/
def reconcileStaleStatus (now : ℤ) (job : Job) : Option Job :=
  if job.status ∈ terminalJob ∨ job.tasks = [] then none
  else if terminalTasks job then
    some { job with
      status := inferredStatus job
      completedAt := job.completedAt.or ((latestCompletion job).or (some job.createdAt)) }
  else if job.status ≠ .running then none
  else some { orphanTasks now job with
    status := .failed, completedAt := job.completedAt.or (some now) }

end Wazir.Jobs
