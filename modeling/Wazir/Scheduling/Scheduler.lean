import Wazir.Scheduling.Scoring

/-! The two phases of the scheduler (`plan` and `routeModel` of `services/scheduler.ts`): the model that
suits a task best, then the computer it runs on. -/

namespace Wazir.Scheduling

structure ScheduleInput where
  task : Task
  requiredContextTokens : Option ℕ := none
  excludeModelIds : List String := []

inductive SchedulingError where
  | noAgent
  | externalAgent (name : String)
  | noModels
  | unknownAssessment
  | noTarget
  | notEligible (modelId : String) (detail : Option (List Rejection)) (alternatives : List String)
  | noComputer (modelId : String) (failures : List PlacementFailure)
  | fallbackDisabled (defaultModel : String)
  | noneEligible (rejected : List (String × List Rejection))
  | noInstance (modelId : String)
  | unknownModel (modelId : String)
  | notRegistered (instanceId : String)

inductive PlacementKind where
  | localMachine
  | hosted
  deriving DecidableEq

inductive ResourceType where
  | hostedApiInference
  | localGpuInference
  | remoteGpuInference
  deriving DecidableEq

inductive Readiness where
  | readyNow
  | loadable
  deriving DecidableEq

structure ModelRoutingDecision where
  modelId : String
  modelInstanceId : String
  score : ℚ

structure SchedulerDecision where
  agentId : Option String
  modelId : String
  modelInstanceId : String
  readiness : Readiness
  runtimeId : String
  computerId : Option String
  placementKind : PlacementKind
  resourceType : ResourceType
  deriving DecidableEq

section

variable (deps : SchedulerDeps) (fleet : Registered)

/-! What the router is told of a model. -/

def residency (modelId : String) (requiredContext : ℕ) : Residency :=
  let loaded := (fleet.instancesOf deps.localeCompare modelId).filter (·.loaded)
  if loaded.any fun i => i.contextTokens.all (requiredContext ≤ ·) then .ready
  else if loaded ≠ [] then .reload else .load

/-- The instance a model would run on: a ready one first. -/
def preferredInstance (modelId : String) : Option ModelInstance :=
  let instances := fleet.instancesOf deps.localeCompare modelId
  ((instances.find? (·.state = some .ready)).or (instances.find? (·.loaded))).or instances.head?

/-- The weights and the cache that have to fit on the GPU, as `estimatePlacement` looks at them. -/
def estimateInstance (record : ModelRecord) (requiredContext : ℕ) (i : ModelInstance) :
    Option PlacementEstimate :=
  if isHosted fleet i then some ⟨0, false, true⟩
  else
    (i.computerId.bind fleet.computer).bind fun c =>
      if c.status ≠ .online then none
      else
        let baseWeightGB := record.memory.minGpuGB.getD 0
        let loadMs := if i.loaded then 0 else i.loadMs baseWeightGB
        let kvCacheGB :=
          if c.gpu.isSome && (0 < baseWeightGB || c.usableGpuGB.isSome) then
            estimateKvCacheGB record requiredContext i.coveredContext
          else 0
        let neededGpuGB := (if i.loaded then 0 else baseWeightGB) + kvCacheGB
        if c.usableGpuGB.any (· < neededGpuGB) then
          let unreservedTotal :=
            max 0 ((c.gpu.map (·.memoryGB)).getD (c.usableGpuGB.getD 0) - c.reservedGpuGB)
          let evictable := !i.loaded && baseWeightGB + kvCacheGB ≤ unreservedTotal &&
            0 < (c.load.bind (·.gpuMemoryUsedGB)).getD 0
          some ⟨loadMs, evictable, evictable⟩
        else if c.gpu.isSome && 0 < baseWeightGB && c.gpuGB < baseWeightGB + kvCacheGB then
          some ⟨loadMs, false, false⟩
        else some ⟨loadMs, false, true⟩

def estimatePlacement (record : ModelRecord) (requiredContext : ℕ) : PlacementEstimate :=
  match fleet.instancesOf deps.localeCompare record.id with
  | [] => ⟨0, false, true⟩
  | instances =>
    let estimates := instances.filterMap (estimateInstance fleet record requiredContext)
    { estimatedLoadMs := ((estimates.map (·.estimatedLoadMs)).min?).getD 0
      evictionRequired := estimates.any (·.evictionRequired)
      kvCacheFits := estimates.any (·.kvCacheFits) }

def routerCandidate (requiredContext : ℕ) (harness : Option String) (s : ScoredModel) :
    RouterCandidate :=
  let preferred := preferredInstance deps fleet s.record.id
  let residency := residency deps fleet s.record.id requiredContext
  let placement := estimatePlacement deps fleet s.record requiredContext
  { harnessId := harness
    workerId := preferred.bind (·.computerId)
    modelId := s.record.id
    runtimeId := (preferred.map (·.runtimeId)).getD "unknown"
    capabilityScore := max 0 s.score
    residency
    placement :=
      { placement with estimatedLoadMs := if residency = .ready then 0 else placement.estimatedLoadMs } }

/-- What one assessment makes of the models. -/
def applyAssessment (routing : ResolvedRoutingConstraint) (scored : List ScoredModel)
    (a : RouterAssessment) : List ScoredModel :=
  scored.map fun s =>
    if s.record.id ≠ a.modelId then s
    else if !a.admissible then { s with rejected := s.rejected ++ [.resource] }
    else
      let preferred := truthy routing.defaultModel && routing.defaultModel = some s.record.id
      { s with score := mathRound (a.score * 1000) / 10 + if preferred then 100 else 0 }

def applyRouter (task : Task) (requiredContext : ℕ) (routing : ResolvedRoutingConstraint)
    (harness : Option String) (scored : List ScoredModel) :
    Except SchedulingError (List ScoredModel) :=
  match deps.router with
  | none => .ok scored
  | some assess =>
    let capable := scored.filter (·.rejected = [])
    let all := assess task (max requiredContext 1)
      (capable.map (routerCandidate deps fleet requiredContext harness))
    if all.all fun a => a.modelId ∈ capable.map (·.record.id) then
      .ok (all.foldl (applyAssessment routing) scored)
    else .error .unknownAssessment

/-! Phase 1. -/

/-- A model's score, with the exclusions and the placements. -/
def assessModel (input : ScheduleInput) (requiredContext : ℕ) (routing : ResolvedRoutingConstraint)
    (harness : Option String) (record : ModelRecord) : ScoredModel :=
  let q : PlacementRequest := { task := input.task, record, requiredContext, routing }
  let s := scoreModel deps fleet q harness
  let rejected := s.rejected ++ rejectIf (record.id ∈ input.excludeModelIds) .excluded
  if rejected = [] ∧ assessPlacements deps fleet q = [] then
    let failures := placementFailures deps fleet q
    { s with rejected := [.placement failures], placementFailures := some failures }
  else { s with rejected }

def modelOrder (a b : ScoredModel) : Ordering :=
  if b.score < a.score then .lt
  else if a.score < b.score then .gt
  else deps.localeCompare a.record.id b.record.id

def selectInstance (record : ModelRecord) : Except SchedulingError ModelInstance :=
  let instances := (fleet.instancesOf deps.localeCompare record.id).filter
    (·.state ∉ [some .draining, some .unloading])
  let isOnline (i : ModelInstance) : Bool :=
    !truthy i.computerId || fleet.computers.any fun c =>
      c.status = .online && i.computerId = some c.id
  match ((instances.find? fun i => i.loaded && i.health = .healthy && isOnline i).or
    (instances.find? fun i => i.health ≠ .unavailable && isOnline i)).or instances.head? with
  | some i => .ok i
  | none => .error (.noInstance record.id)

/-- The decision for a model that is chosen. -/
def decideModel (s : ScoredModel) : Except SchedulingError ModelRoutingDecision := do
  let i ← selectInstance deps fleet s.record
  return { modelId := s.record.id, modelInstanceId := i.id, score := s.score }

/-- A model that could only be placed nowhere. -/
def onlyPlacement (s : ScoredModel) : Bool := s.placementFailures.isSome && s.rejected.length = 1

/-- A pin is a hard requirement: no other model in its place. -/
def routePinned (target : Option String) (scored : List ScoredModel) :
    Except SchedulingError ModelRoutingDecision :=
  if !truthy target then .error .noTarget
  else
    let targetId := target.getD ""
    let eligible := scored.filter (·.rejected = [])
    match eligible.find? (·.record.id = targetId) with
    | some s => decideModel deps fleet s
    | none =>
      match (scored.filter (·.rejected ≠ [])).find? (·.record.id = targetId) with
      | some s =>
        if onlyPlacement s then .error (.noComputer targetId (s.placementFailures.getD []))
        else .error (.notEligible targetId (some s.rejected) (eligible.map (·.record.id)))
      | none => .error (.notEligible targetId none (eligible.map (·.record.id)))

def routeBest (scored : List ScoredModel) : Except SchedulingError ModelRoutingDecision :=
  match sortBy (modelOrder deps) (scored.filter (·.rejected = [])) with
  | best :: _ => decideModel deps fleet best
  | [] =>
    match sortBy (modelOrder deps) (scored.filter onlyPlacement) with
    | top :: rest =>
      .error (.noComputer top.record.id ((top :: rest).flatMap (·.placementFailures.getD [])))
    | [] => .error (.noneEligible (scored.map fun s => (s.record.id, s.rejected)))

def routeModel (input : ScheduleInput) (requiredContext : ℕ) (routing : ResolvedRoutingConstraint)
    (harness : Option String) : Except SchedulingError ModelRoutingDecision :=
  match fleet.listModels deps.localeCompare with
  | [] => .error .noModels
  | records => do
    let scored ← applyRouter deps fleet input.task requiredContext routing harness
      (records.map (assessModel deps fleet input requiredContext routing harness))
    let preferred := routing.targetModelId.or input.task.execution.targetModelId
    match routing.isStrictMode || truthy preferred, routing.allowFallback, routing.defaultModel with
    | true, _, _ => routePinned deps fleet preferred scored
    | false, false, some defaultModel =>
      if defaultModel ≠ "" ∧ defaultModel ∈ input.excludeModelIds then
        .error (.fallbackDisabled defaultModel)
      else routeBest deps fleet scored
    | false, _, _ => routeBest deps fleet scored

/-! Both phases. -/

/-- The agent that the task resolves to, if there is a registry of agents. -/
def resolveAgent (task : Task) (routing : ResolvedRoutingConstraint) :
    Except SchedulingError (Option String) :=
  match deps.agents with
  | none => .ok none
  | some resolveForTask =>
    match resolveForTask task with
    | none => .error .noAgent
    | some agent =>
      if routing.mode = .providerOnly ∧ agent.external then .error (.externalAgent agent.name)
      else .ok (some agent.name)

def ScheduleInput.requiredContext (input : ScheduleInput) : ℕ :=
  let req := input.task.requirements
  ((input.requiredContextTokens.or req.minContextTokens).or req.minimumContext).getD 0

/-- The instance named by the decision: the first on the runtime and the computer of the placement. -/
def placedInstance (instances : List ModelInstance) (best : ScoredPlacement)
    (selected : ModelInstance) : ModelInstance :=
  (instances.find? fun i =>
    i.runtimeId = best.inst.runtimeId && i.computerId = best.computer.map (·.id)).getD selected

def resourceTypeOf : Option Computer → ResourceType
  | none => .hostedApiInference
  | some c => if c.isLocal then .localGpuInference else .remoteGpuInference

def toDecision (agentId : Option String) (record : ModelRecord) (placed : ModelInstance)
    (best : ScoredPlacement) : SchedulerDecision where
  agentId
  modelId := record.id
  modelInstanceId := placed.id
  readiness := if placed.state = some .ready then .readyNow else .loadable
  runtimeId := best.inst.runtimeId
  computerId := best.computer.map (·.id)
  placementKind := if best.computer.isSome then .localMachine else .hosted
  resourceType := resourceTypeOf best.computer

def plan (input : ScheduleInput) : Except SchedulingError SchedulerDecision := do
  let routing := resolveRoutingConstraint deps.routing deps.preferences input.task
  let agentId ← resolveAgent deps input.task routing
  let harness := (agentId.or input.task.execution.targetAgentId).or input.task.requirements.agent
  let chosen ← routeModel deps fleet input input.requiredContext routing harness
  match fleet.model chosen.modelId with
  | none => .error (.unknownModel chosen.modelId)
  | some record =>
    let instances := fleet.instancesOf deps.localeCompare record.id
    match instances.find? (·.id = chosen.modelInstanceId) with
    | none => .error (.notRegistered chosen.modelInstanceId)
    | some selected =>
      let q : PlacementRequest :=
        { task := input.task, record, requiredContext := input.requiredContext, routing }
      match scheduleComputer deps fleet q with
      | none => .error (.noComputer record.id (placementFailures deps fleet q))
      | some best => .ok (toDecision agentId record (placedInstance instances best selected) best)

end

end Wazir.Scheduling
