import Mathlib.Algebra.Order.Floor.Ring
import Mathlib.Data.Rat.Floor
import Wazir.Scheduling.Routing

/-! Where a model may run (`assessPlacements` and `scheduleComputer` of `services/scheduler.ts`). The
services that the scheduler is given are parameters, reasons are data. -/

namespace Wazir.Scheduling

inductive CircuitState where
  | closed
  | opened
  | halfOpen
  deriving DecidableEq

/-- What `assessDeviceForModel` finds. -/
structure DeviceAssessment where
  rejectionReasons : List String
  availableMemoryGB : Option ℚ
  alreadyLoaded : Bool

/-- The agent that a task resolves to. -/
structure ResolvedAgent where
  name : String
  external : Bool

inductive CostTier where
  | t1
  | t2
  | t3
  | t4
  | any
  deriving DecidableEq

inductive Residency where
  | ready
  | reload
  | load
  deriving DecidableEq

structure PlacementEstimate where
  estimatedLoadMs : ℚ
  evictionRequired : Bool
  kvCacheFits : Bool

/-- What the resource router is asked about. -/
structure RouterCandidate where
  harnessId : Option String
  workerId : Option String
  modelId : String
  runtimeId : String
  capabilityScore : ℚ
  residency : Residency
  placement : PlacementEstimate

/-- What it says of a candidate. -/
structure RouterAssessment where
  modelId : String
  admissible : Bool
  score : ℚ

/-- What the scheduler is constructed with, besides the registries. -/
structure SchedulerDeps where
  localeCompare : String → String → Ordering
  routing : Option RoutingPolicyConfig := none
  preferences : Option ModelPreferenceService := none
  allowHostedProvidersDefault : Bool := false
  agents : Option (Task → Option ResolvedAgent) := none
  circuit : String → String → Option CircuitState := fun _ _ => none
  router : Option (Task → ℕ → List RouterCandidate → List RouterAssessment) := none
  assessDevice : ModelRecord → Computer → ModelInstance → Option RuntimeRecord → DeviceAssessment
  planContext : ModelRecord → ℕ → Effort → Option ℚ → Bool → Option String
  costTier : ModelRecord → CostTier
  estimateMemoryGB : ModelRecord → ℚ
  /-- What was measured of a model on its instances, and of the harness on it. -/
  evidence : Task → Option String → ModelRecord → List ModelInstance → ℚ

/-! The gate for hosted providers. -/

/-- `checkHostedEligibility` of `services/policyEngine.ts`. -/
def SchedulerDeps.checkHostedEligibility (deps : SchedulerDeps) (policy : PolicyRequirements) : Bool :=
  !policy.localOnly && policy.dataClassification ≠ some .sensitive &&
    policy.dataClassification ≠ some .restricted &&
    policy.allowHostedProviders.getD deps.allowHostedProvidersDefault

/-- The policy keeps the data of the task at home, whatever is asked for. -/
def PolicyRequirements.keepsLocal (p : PolicyRequirements) : Bool :=
  p.localOnly || p.dataClassification = some .sensitive || p.dataClassification = some .restricted

def PolicyRequirements.hostedAllowed (p : PolicyRequirements) : PolicyRequirements :=
  { p with allowHostedProviders := some true }

def effectivePolicyForHosted (task : Task) (providerId : String)
    (routing : ResolvedRoutingConstraint) : PolicyRequirements :=
  if task.policy.keepsLocal then task.policy
  else
    let explicitlyRequestedHosted :=
      (routing.mode = .providerOnly && (!truthy routing.provider ||
        routing.provider = some providerId.toLower)) ||
      task.execution.targetRuntimeId = some providerId
    if explicitlyRequestedHosted && task.policy.allowHostedProviders = none then
      task.policy.hostedAllowed
    else task.policy

/-- The policy under which a model may be hosted by a provider. -/
def hostedPolicy (task : Task) (record : ModelRecord) (providerId : String)
    (routing : ResolvedRoutingConstraint) : PolicyRequirements :=
  if task.execution.targetModelId = some record.id && !task.policy.keepsLocal &&
      task.policy.allowHostedProviders = none then task.policy.hostedAllowed
  else effectivePolicyForHosted task providerId routing

/-! Memory. -/

/-- `Math.round(x)` -/
def mathRound (x : ℚ) : ℚ := ⌊x + 1 / 2⌋

/-- `Number(x.toFixed(2))` -/
def toFixed2 (x : ℚ) : ℚ := mathRound (x * 100) / 100

def estimateKvCacheGB (record : ModelRecord) (requiredContext baseCoveredContext : ℕ) : ℚ :=
  if requiredContext ≤ baseCoveredContext then 0
  else
    let extraTokens : ℚ := (requiredContext : ℚ) - baseCoveredContext
    let baseWeightGB := max 4 ((record.memory.minGpuGB.or record.memory.minSystemGB).getD 8)
    toFixed2 (extraTokens / 32768 * (baseWeightGB * (1 / 4)))

def gigabyte : ℚ := 1024 ^ 3

namespace Computer

def reservedSystemGB (c : Computer) : ℚ :=
  (c.reservations.map fun r => (if r.settled then 0 else r.memoryBytes / gigabyte + r.memoryGB)).sum

def reservedGpuGB (c : Computer) : ℚ :=
  (c.reservations.map fun r => (if r.settled then 0 else r.vramBytes / gigabyte + r.gpuMemoryGB)).sum

def gpuGB (c : Computer) : ℚ := (c.gpu.map (·.memoryGB)).getD 0

/-- None if nothing was observed. -/
def usableSystemGB (c : Computer) : Option ℚ :=
  (c.load.bind (·.memoryAvailableGB)).map fun available => max 0 (available - c.reservedSystemGB)

def usableGpuGB (c : Computer) : Option ℚ :=
  match c.load.bind (·.gpuMemoryAvailableGB) with
  | some available => some (max 0 (available - c.reservedGpuGB))
  | none =>
    match c.gpu, c.load.bind (·.gpuMemoryUsedGB) with
    | some _, some used => some (max 0 (c.gpuGB - used - c.reservedGpuGB))
    | some _, none => if 0 < c.reservedGpuGB then some (max 0 (c.gpuGB - c.reservedGpuGB)) else none
    | none, _ => none

end Computer

def normalizePlatform (p : String) : String :=
  let s := trim p.toLower
  if s ∈ ["darwin", "macos", "mac", "osx"] then "darwin"
  else if s ∈ ["win32", "windows", "win"] then "win32"
  else if s ∈ ["linux", "ubuntu", "debian"] then "linux"
  else s

def normalizeArch (a : String) : String :=
  let s := trim a.toLower
  if s ∈ ["arm64", "aarch64"] then "arm64"
  else if s ∈ ["x64", "x86_64", "amd64"] then "x64"
  else s

/-! One instance. -/

inductive PlacementFailure where
  | lifecycle
  /-- Another computer is asked for; the source gives no reason. -/
  | targetComputer
  | targetRuntime
  | provider
  | localOnly
  | hostedPolicy
  | os
  | architecture
  | gpu
  | cuda
  | allowedComputers
  | allowedRuntimes
  | runtimeUnavailable
  | instanceUnavailable
  | runtimeCompatibility
  | offline
  | notLocal
  | memory
  | availableMemory
  | gpuMemory
  | kvCache
  | usableGpuMemory
  | device (reasons : List String)
  | contextPlan (reason : String)
  deriving DecidableEq

structure ScoredPlacement where
  inst : ModelInstance
  computer : Option Computer
  score : ℚ

/-- The checks of a placement, the first that fails. -/
def firstFailure : List (Bool × PlacementFailure) → Option PlacementFailure
  | [] => none
  | (failed, failure) :: rest => if failed then some failure else firstFailure rest

structure PlacementRequest where
  task : Task
  record : ModelRecord
  requiredContext : ℕ
  routing : ResolvedRoutingConstraint

/-- The time to load, observed or estimated from the weights. -/
def ModelInstance.loadMs (i : ModelInstance) (weightGB : ℚ) : ℚ :=
  i.loadTimeMs.getD (max 1500 (mathRound (weightGB * 400)))

/-- What the instance's context covers already. -/
def ModelInstance.coveredContext (i : ModelInstance) : ℕ :=
  if i.loaded then i.contextTokens.getD 8192 else 8192

namespace PlacementRequest

variable (deps : SchedulerDeps) (q : PlacementRequest)

def incompatible (runtimeType : String) : Bool :=
  q.record.runtimeCompatibility.any (runtimeType ∉ ·)

def requiredSystemGB : ℚ :=
  max (q.record.memory.minSystemGB.getD 0) q.task.requirements.minimumMemoryGB

def requiredGpuGB : ℚ :=
  max (q.record.memory.minGpuGB.getD 0) q.task.requirements.minimumGPUMemoryGB

/-- The checks that come before it matters who hosts the instance. -/
def commonChecks (i : ModelInstance) (runtime : Option RuntimeRecord) :
    List (Bool × PlacementFailure) :=
  [(i.state ∈ [some .draining, some .unloading, some .loading], .lifecycle),
   (truthy q.task.execution.targetComputerId && i.computerId ≠ q.task.execution.targetComputerId,
     .targetComputer),
   (truthy q.task.execution.targetRuntimeId && some i.runtimeId ≠ q.task.execution.targetRuntimeId,
     .targetRuntime),
   (q.routing.mode = .providerOnly && i.runtimeId.toLower ≠ q.routing.targetProvider &&
     !runtime.any (·.type.toLower = q.routing.targetProvider), .provider)]

def hostedChecks (i : ModelInstance) (runtime : Option RuntimeRecord) :
    List (Bool × PlacementFailure) :=
  let req := q.task.requirements
  let policy := hostedPolicy q.task q.record i.runtimeId q.routing
  [(q.routing.mode = .localOnly, .localOnly),
   (!deps.checkHostedEligibility policy, .hostedPolicy),
   (req.os.isSome, .os),
   (req.architecture.isSome, .architecture),
   (req.requiresCuda, .cuda),
   (req.requiresGpu, .gpu),
   (policy.allowedComputers.isSome, .allowedComputers),
   (policy.allowedRuntimes.any (i.runtimeId ∉ ·), .allowedRuntimes),
   (!runtime.any (·.health ≠ .unavailable), .runtimeUnavailable),
   (i.health = .unavailable, .instanceUnavailable),
   (q.incompatible ((runtime.map (·.type)).getD i.runtimeId), .runtimeCompatibility)]

def kvCacheGB (i : ModelInstance) (c : Computer) : ℚ :=
  if c.gpu.isSome && (0 < q.requiredGpuGB || c.usableGpuGB.isSome) then
    estimateKvCacheGB q.record q.requiredContext i.coveredContext
  else 0

def neededGpuGB (i : ModelInstance) (c : Computer) : ℚ :=
  (if i.loaded then 0 else q.requiredGpuGB) + q.kvCacheGB i c

def contextPlan (i : ModelInstance) (c : Computer) (runtime : Option RuntimeRecord) : Option String :=
  let device := deps.assessDevice q.record c i runtime
  deps.planContext q.record (if q.requiredContext = 0 then 2048 else q.requiredContext)
    q.routing.reasoningEffort
    (if c.gpu.isSome && 0 < q.record.memory.minGpuGB.getD 0 then none else device.availableMemoryGB)
    device.alreadyLoaded

def computerChecks (i : ModelInstance) (c : Computer) (runtime : Option RuntimeRecord) :
    List (Bool × PlacementFailure) :=
  let req := q.task.requirements
  let policy := q.task.policy
  let device := deps.assessDevice q.record c i runtime
  [(c.status ≠ .online, .offline),
   (req.os.any fun os => normalizePlatform c.platform ∉ os.map normalizePlatform, .os),
   (req.architecture.any fun archs => normalizeArch c.architecture ∉ archs.map normalizeArch,
     .architecture),
   (req.requiresGpu && c.gpu.isNone, .gpu),
   (req.requiresCuda && !c.gpu.any (·.cuda), .cuda),
   (policy.allowedComputers.any (c.id ∉ ·), .allowedComputers),
   (policy.localOnly && !c.isLocal, .notLocal),
   (policy.allowedRuntimes.any (i.runtimeId ∉ ·), .allowedRuntimes),
   (runtime.any (·.health = .unavailable), .runtimeUnavailable),
   (i.health = .unavailable, .instanceUnavailable),
   (q.incompatible ((runtime.map (·.type)).getD i.runtimeId), .runtimeCompatibility),
   (c.memoryGB < q.requiredSystemGB, .memory),
   (!i.loaded && c.usableSystemGB.any (· < q.requiredSystemGB), .availableMemory),
   (0 < q.requiredGpuGB && c.gpuGB < q.requiredGpuGB, .gpuMemory),
   (c.gpu.isSome && 0 < q.requiredGpuGB && c.gpuGB < q.requiredGpuGB + q.kvCacheGB i c, .kvCache),
   (c.usableGpuGB.any (· < q.neededGpuGB i c), .usableGpuMemory),
   (device.rejectionReasons ≠ [], .device device.rejectionReasons),
   ((q.contextPlan deps i c runtime).isSome, .contextPlan ((q.contextPlan deps i c runtime).getD ""))]

/-- A better start for instances that answer at once. -/
def startScore (i : ModelInstance) : ℚ :=
  if i.state = some .ready || i.loaded then 2
  else -min (3 / 2) (i.loadMs q.requiredGpuGB / 20000)

def computerScore (i : ModelInstance) (c : Computer) (runtime : Option RuntimeRecord) : ℚ :=
  let req := q.task.requirements
  (if i.health = .healthy then 1 else 0) + q.startScore i +
  max 0 (1 - (c.load.map (·.cpuPercent)).getD 0 / 100) +
  (if 0 < q.requiredSystemGB ∧
    (c.load.bind (·.memoryAvailableGB)).any (q.requiredSystemGB * 2 ≤ ·) then 1 / 2 else 0) +
  (if c.isLocal then 1 else 0) + (if runtime.any (·.health = .healthy) then 1 else 0) -
  (if c.health = .degraded then 1 else 0) + (if req.os.isSome then 3 / 2 else 0) +
  (if req.architecture.isSome then 1 else 0) +
  (if req.requiresCuda && c.gpu.any (·.cuda) then 2 else 0) +
  (if c.gpu.any (·.unifiedMemory) then 1 / 2 else 0)

end PlacementRequest

/-! All instances. -/

def isHosted (fleet : Registered) (i : ModelInstance) : Bool :=
  (fleet.runtime i.runtimeId).any (·.hosted) || !truthy i.computerId

def assessPlacement (deps : SchedulerDeps) (fleet : Registered) (q : PlacementRequest)
    (i : ModelInstance) : Except PlacementFailure ScoredPlacement :=
  let runtime := fleet.runtime i.runtimeId
  match firstFailure (q.commonChecks i runtime) with
  | some failure => .error failure
  | none =>
    if isHosted fleet i then
      match firstFailure (q.hostedChecks deps i runtime) with
      | some failure => .error failure
      | none => .ok ⟨i, none, if runtime.any (·.health = .healthy) then 2 else 1⟩
    else
      match i.computerId.bind fleet.computer with
      | none => .error .offline
      | some c =>
        match firstFailure (q.computerChecks deps i c runtime) with
        | some failure => .error failure
        | none => .ok ⟨i, some c, q.computerScore i c runtime⟩

def assessPlacements (deps : SchedulerDeps) (fleet : Registered) (q : PlacementRequest) :
    List ScoredPlacement :=
  (fleet.instancesOf deps.localeCompare q.record.id).filterMap fun i =>
    (assessPlacement deps fleet q i).toOption

def placementFailures (deps : SchedulerDeps) (fleet : Registered) (q : PlacementRequest) :
    List PlacementFailure :=
  (fleet.instancesOf deps.localeCompare q.record.id).filterMap fun i =>
    match assessPlacement deps fleet q i with
    | .error failure => if failure = .targetComputer then none else some failure
    | .ok _ => none

/-- Better scores first, then by computer or hosted runtime. -/
def placementOrder (deps : SchedulerDeps) (a b : ScoredPlacement) : Ordering :=
  if b.score < a.score then .lt
  else if a.score < b.score then .gt
  else deps.localeCompare ((a.computer.map (·.id)).getD a.inst.runtimeId)
    ((b.computer.map (·.id)).getD b.inst.runtimeId)

/-- The best placement; none if the model can be hosted nowhere. -/
def scheduleComputer (deps : SchedulerDeps) (fleet : Registered) (q : PlacementRequest) :
    Option ScoredPlacement :=
  (sortBy (placementOrder deps) (assessPlacements deps fleet q)).head?

end Wazir.Scheduling
