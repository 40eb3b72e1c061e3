import Wazir.Core.StatusTransitions

/-! Jobs (`types/job.ts`) and what the methods of `services/jobManager.ts` make of one. Titles,
messages, artifacts, results and the execution preferences are left out; no modelled function reads
them. -/

namespace Wazir.Jobs

open Wazir.Core

structure TaskGraphEdge where
  source : String
  target : String
  deriving DecidableEq

structure NodeAttempt where
  state : AgentState
  error : Option String
  executedAt : Option ℤ
  completedAt : Option ℤ
  deriving DecidableEq

structure JobNode where
  id : String
  taskId : Option String
  state : AgentState
  dependencies : List String
  children : List String
  error : Option String
  retryCount : Option ℕ
  attempts : List NodeAttempt
  executedAt : Option ℤ
  completedAt : Option ℤ
  deriving DecidableEq

/-- `n.id === id || n.taskId === id` -/
def JobNode.isFor (n : JobNode) (id : String) : Bool := n.id = id || n.taskId = some id

/-- `n.taskId ?? n.id` -/
def JobNode.task (n : JobNode) : String := n.taskId.getD n.id

structure Task where
  id : String
  status : TaskStatus
  deriving DecidableEq

structure JobGraph where
  nodes : List JobNode
  edges : List TaskGraphEdge
  deriving DecidableEq

structure Ownership where
  ownerId : String
  epoch : ℕ
  expiresAt : ℤ
  deriving DecidableEq

/-- `control` is the time of a cancel request. -/
structure Job where
  id : String
  revision : Option ℕ
  control : Option ℤ
  ownership : Option Ownership
  status : JobStatus
  tasks : List Task
  graph : JobGraph
  maxRetries : Option ℕ
  createdAt : ℤ
  startedAt : Option ℤ
  completedAt : Option ℤ
  deriving DecidableEq

/-- The first element with `p`, changed. -/
def updateFirst {α : Type} (p : α → Bool) (f : α → α) : List α → List α
  | [] => []
  | a :: rest => if p a then f a :: rest else a :: updateFirst p f rest

namespace Job

def node? (job : Job) (id : String) : Option JobNode := job.graph.nodes.find? (·.isFor id)

def task? (job : Job) (id : String) : Option Task := job.tasks.find? (·.id = id)

def setNodes (job : Job) (nodes : List JobNode) : Job :=
  { job with graph := { job.graph with nodes := nodes } }

def setTask (job : Job) (id : String) (status : TaskStatus) : Job :=
  { job with tasks := updateFirst (·.id = id) (fun t => { t with status := status }) job.tasks }

end Job

/-! Dependencies. -/

/-- A dependency without a node holds nothing up. -/
def dependenciesSatisfied (job : Job) (taskId : String) : Bool :=
  match job.node? taskId with
  | none => true
  | some node => node.dependencies.all fun dep => (job.node? dep).all (·.state = .completed)

def hasFailedDependency (job : Job) (taskId : String) : Bool :=
  match job.node? taskId with
  | none => false
  | some node => node.dependencies.any fun dep =>
      (job.node? dep).any (fun n => n.state = .failed || n.state = .cancelled) ||
        (job.task? dep).any fun t => t.status = .failed || t.status = .cancelled

/-! Status changes. -/

def jobStatusText : JobStatus → String
  | .pending => "pending"
  | .planning => "planning"
  | .ready => "ready"
  | .running => "running"
  | .paused => "paused"
  | .completed => "completed"
  | .failed => "failed"
  | .cancelled => "cancelled"

def taskStatusText : TaskStatus → String
  | .pending => "pending"
  | .queued => "queued"
  | .planning => "planning"
  | .scheduled => "scheduled"
  | .ready => "ready"
  | .running => "running"
  | .waitingForApproval => "waiting_for_approval"
  | .verifying => "verifying"
  | .paused => "paused"
  | .completed => "completed"
  | .failed => "failed"
  | .cancelled => "cancelled"
  | .blocked => "blocked"

def agentStateText : AgentState → String
  | .idle => "idle"
  | .assigned => "assigned"
  | .running => "running"
  | .blocked => "blocked"
  | .completed => "completed"
  | .failed => "failed"
  | .cancelled => "cancelled"

def invalidTransition (kind id before after : String) : String :=
  "Invalid " ++ kind ++ " status transition for '" ++ id ++ "': " ++ before ++ " -> " ++ after

def assertJobTransition (id : String) (before after : JobStatus) : Except String Unit :=
  if canTransitionJob before after then .ok ()
  else .error (invalidTransition "job" id (jobStatusText before) (jobStatusText after))

def assertTaskTransition (id : String) (before after : TaskStatus) : Except String Unit :=
  if canTransitionTask before after then .ok ()
  else .error (invalidTransition "task" id (taskStatusText before) (taskStatusText after))

def assertNodeTransition (id : String) (before after : AgentState) : Except String Unit :=
  if canTransitionNode before after then .ok ()
  else .error (invalidTransition "node" id (agentStateText before) (agentStateText after))

/-- The node of an id goes to a state; an id without a node changes nothing. -/
def updateNodeState (now : ℤ) (job : Job) (nodeId : String) (state : AgentState)
    (error : Option String) : Except String Job :=
  match job.node? nodeId with
  | none => .ok job
  | some node => do
    assertNodeTransition (job.id ++ "/" ++ node.id) node.state state
    return job.setNodes (updateFirst (·.isFor nodeId) (fun n =>
      { n with
        state := state
        error := error.or n.error
        executedAt := if state = .running then n.executedAt.or (some now) else n.executedAt
        completedAt := if state = .completed ∨ state = .failed then some now else n.completedAt })
      job.graph.nodes)

/-! New tasks. -/

structure JobTaskInput where
  id : Option String
  dependencies : Option (List String)

def JobTaskInput.deps (input : JobTaskInput) : List String := input.dependencies.getD []

def newNode (taskId : String) (dependencies : List String) : JobNode where
  id := taskId
  taskId := some taskId
  state := .idle
  dependencies := dependencies
  children := []
  error := none
  retryCount := none
  attempts := []
  executedAt := none
  completedAt := none

/-- A node and its edges, with the node as a child of each dependency that has a node by then. -/
def addNode (isParent : JobNode → String → Bool) (graph : JobGraph) (taskId : String)
    (dependencies : List String) : JobGraph :=
  dependencies.foldl (fun graph dep =>
    { nodes := updateFirst (isParent · dep) (fun n =>
        if taskId ∈ n.children then n else { n with children := n.children ++ [taskId] }) graph.nodes
      edges := graph.edges ++ [⟨dep, taskId⟩] })
    { graph with nodes := graph.nodes ++ [newNode taskId dependencies] }

/-- One new task, with the ids that the new tasks have so far; `stamp` is
`Date.now().toString(36)`. -/
def addTask (stamp : String) (s : Job × List String) (input : JobTaskInput × ℕ) : Job × List String :=
  let taskId :=
    input.1.id.getD ("task-" ++ s.1.id ++ "-dyn-" ++ stamp ++ "-" ++ toString input.2)
  ({ s.1 with
      tasks := s.1.tasks ++ [⟨taskId, .pending⟩]
      graph := addNode JobNode.isFor s.1.graph taskId input.1.deps }, s.2 ++ [taskId])

/-- The first loop of `addTasksToJob`. -/
def addTasks (stamp : String) (newTasks : List JobTaskInput) (job : Job) : Job × List String :=
  newTasks.zipIdx.foldl (addTask stamp) (job, [])

/-- `edges.some(e => e.from === from && e.to === to)`, before one is pushed. -/
def addEdge (edges : List TaskGraphEdge) (edge : TaskGraphEdge) : List TaskGraphEdge :=
  if edge ∈ edges then edges else edges ++ [edge]

/-- The first new task takes over what the replaced one depended on. -/
def inheritDependencies (oldId firstId : String) (graph : JobGraph) : JobGraph :=
  let ofOld := fun nodes : List JobNode =>
    ((nodes.find? (·.isFor oldId)).map (·.dependencies)).getD []
  if graph.nodes.any (·.id = firstId) then
    let nodes := updateFirst (·.id = firstId) (fun n =>
      { n with dependencies := n.dependencies.filter (· ≠ oldId) ++ ofOld graph.nodes }) graph.nodes
    { nodes := nodes
      edges := (ofOld nodes).foldl (fun edges dep => addEdge edges ⟨dep, firstId⟩)
        (graph.edges.filter fun e => !(e.source = oldId && e.target = firstId)) }
  else graph

/-- What depended on the replaced task depends on the last new one; of a list only the first
occurrence is replaced. -/
def redirectDependents (oldId finalId : String) (newIds : List String) (graph : JobGraph) :
    JobGraph where
  nodes := graph.nodes.map fun n =>
    if n.id ∉ newIds ∧ n.taskId.getD "" ∉ newIds then
      { n with dependencies := updateFirst (· = oldId) (fun _ => finalId) n.dependencies }
    else n
  edges := graph.edges.map fun e =>
    if e.source = oldId ∧ e.target ∉ newIds then { e with source := finalId } else e

/-- `addTasksToJob`, up to its write. An empty `replacesTaskId` is none. -/
def addTasksToJob (stamp : String) (newTasks : List JobTaskInput) (replacesTaskId : Option String)
    (job : Job) : Job :=
  let (job, created) := addTasks stamp newTasks job
  match replacesTaskId, created.head?, created.getLast? with
  | some oldId, some firstId, some finalId =>
    if oldId = "" then job
    else { job with
      graph := redirectDependents oldId finalId created (inheritDependencies oldId firstId job.graph) }
  | _, _, _ => job

/-! The methods that change the cached job and write it. -/

inductive JobMethod where
  | save
  | completeTask (taskId : String)
  /-- `retryCount` may be `Infinity`; it is 0 where none is given. -/
  | failTask (taskId error : String) (retryCount : WithTop ℕ)
  | addMessage
  | addArtifact
  | setJobStatus (status : JobStatus) (startedAt completedAt : Option ℤ)
  | updateTaskStatus (taskId : String) (status : TaskStatus)
  | updateAgentState (nodeId : String) (state : AgentState) (error : Option String)
  | addTasksToJob (stamp : String) (newTasks : List JobTaskInput) (replacesTaskId : Option String)
  | pause
  | resume
  | cancel

def requireTask (job : Job) (taskId : String) : Except String Task :=
  match job.task? taskId with
  | none => .error ("Task '" ++ taskId ++ "' not found in job '" ++ job.id ++ "'")
  | some task => .ok task

/-- What a method makes of the cached job before it writes it. -/
def JobMethod.apply (now : ℤ) (job : Job) : JobMethod → Except String Job
  | .save => .ok job
  | .completeTask taskId => do
    let task ← requireTask job taskId
    assertTaskTransition (job.id ++ "/" ++ taskId) task.status .completed
    let job ← updateNodeState now job taskId .completed none
    return job.setTask taskId .completed
  | .failTask taskId error retryCount => do
    let task ← requireTask job taskId
    let willRetry : Bool := retryCount < (job.maxRetries.getD 3 : ℕ)
    assertTaskTransition (job.id ++ "/" ++ taskId) task.status (if willRetry then .pending else .failed)
    if willRetry then
      let idle : Except String Job :=
        if (job.node? taskId).any (·.state ≠ .idle) then
          updateNodeState now job taskId .idle (some error)
        else .ok job
      return (← idle).setTask taskId .pending
    else
      let job ← updateNodeState now job taskId .failed (some error)
      return job.setTask taskId .failed
  | .addMessage => .ok job
  | .addArtifact => .ok job
  | .setJobStatus status startedAt completedAt => do
    assertJobTransition job.id job.status status
    return { job with
      status := status
      startedAt := startedAt.or job.startedAt
      completedAt := completedAt.or job.completedAt }
  | .updateTaskStatus taskId status => do
    let task ← requireTask job taskId
    assertTaskTransition (job.id ++ "/" ++ taskId) task.status status
    return job.setTask taskId status
  | .updateAgentState nodeId state error => updateNodeState now job nodeId state error
  | .addTasksToJob stamp newTasks replacesTaskId =>
    .ok (Jobs.addTasksToJob stamp newTasks replacesTaskId job)
  | .pause =>
    if job.status ∈ [.pending, .planning, .ready, .running] then .ok { job with status := .paused }
    else .error ("Cannot pause job in status '" ++ jobStatusText job.status ++ "'")
  | .resume =>
    if job.status = .paused then
      .ok { job with
        status := .ready
        tasks := job.tasks.map fun t =>
          if t.status = .blocked ∧ dependenciesSatisfied job t.id then { t with status := .pending }
          else t }
    else .error ("Cannot resume job in status '" ++ jobStatusText job.status ++ "'")
  | .cancel =>
    if job.status = .completed ∨ job.status = .failed then
      .error ("Cannot cancel job in terminal status '" ++ jobStatusText job.status ++ "'")
    else
      .ok { job with
        status := .cancelled
        tasks := job.tasks.map fun t =>
          if t.status = .pending ∨ t.status = .running then { t with status := .cancelled } else t }

end Wazir.Jobs
