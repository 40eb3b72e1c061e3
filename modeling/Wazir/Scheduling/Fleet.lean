import Mathlib.Algebra.Order.Field.Rat
import Wazir.Shared.Strings

/-! What the scheduler looks at (`types/task.ts`, `types/model.ts`, `types/computer.ts`): tasks, and the
registries of models, instances, runtimes and computers. Amounts are exact numbers. -/

namespace Wazir.Scheduling

/-- A string that is there and not empty, as `if` sees it. -/
def truthy (s : Option String) : Bool := s.any (· ≠ "")

/-! Tasks. -/

inductive Effort where
  | low
  | medium
  | high
  deriving DecidableEq

inductive DataClassification where
  | publicData
  | internal
  | sensitive
  | restricted
  deriving DecidableEq

inductive ExecutionMode where
  | automatic
  | localMode
  | fastest
  | highestQuality
  deriving DecidableEq

structure TaskRequirements where
  capabilities : List String := []
  reasoning : Option Effort := none
  vision : Bool := false
  toolCalling : Bool := false
  minimumContext : Option ℕ := none
  minContextTokens : Option ℕ := none
  minimumMemoryGB : ℚ := 0
  minimumGPUMemoryGB : ℚ := 0
  os : Option (List String) := none
  architecture : Option (List String) := none
  requiresGpu : Bool := false
  requiresCuda : Bool := false
  agent : Option String := none

structure PolicyRequirements where
  dataClassification : Option DataClassification := none
  localOnly : Bool := false
  allowedComputers : Option (List String) := none
  allowedRuntimes : Option (List String) := none
  allowedModels : Option (List String) := none
  allowHostedProviders : Option Bool := none

structure ExecutionPreferences where
  targetComputerId : Option String := none
  targetRuntimeId : Option String := none
  targetModelId : Option String := none
  targetAgentId : Option String := none
  modelId : Option String := none
  executionMode : Option ExecutionMode := none
  routingMode : Option String := none
  reasoningEffort : Option Effort := none
  routingProvider : Option String := none
  defaultModelId : Option String := none
  allowFallback : Option Bool := none

structure Task where
  id : String := ""
  type : String := "coding"
  requirements : TaskRequirements := {}
  policy : PolicyRequirements := {}
  execution : ExecutionPreferences := {}
  routingMode : Option String := none
  targetModelId : Option String := none

/-- `task.execution?.routingMode ?? task.routingMode` -/
def Task.rawMode (task : Task) : Option String := task.execution.routingMode.or task.routingMode

/-! Models and where they run. -/

structure MemoryRequirements where
  minSystemGB : Option ℚ := none
  minGpuGB : Option ℚ := none

structure ModelRecord where
  id : String
  provider : String
  contextMax : ℕ
  configuredContext : Option ℕ := none
  capabilities : List String := []
  toolCalling : Bool := false
  vision : Bool := false
  reasoning : Bool := false
  memory : MemoryRequirements := {}
  /-- None is `'any'`. -/
  runtimeCompatibility : Option (List String) := none
  isLocal : Bool

def effectiveContextTokens (model : ModelRecord) : ℕ :=
  model.configuredContext.getD model.contextMax

inductive ModelLifecycleState where
  | discovered
  | installed
  | loading
  | loaded
  | ready
  | draining
  | unloaded
  | unloading
  | failed
  | unavailable
  deriving DecidableEq

instance lawfulStates : LawfulBEq (Option ModelLifecycleState) := inferInstance

inductive Health where
  | healthy
  | degraded
  | unavailable
  deriving DecidableEq

structure ModelInstance where
  id : String
  modelId : String
  computerId : Option String := none
  runtimeId : String
  loaded : Bool := false
  state : Option ModelLifecycleState := none
  health : Health := .healthy
  contextTokens : Option ℕ := none
  loadTimeMs : Option ℚ := none
  deriving DecidableEq

structure RuntimeRecord where
  id : String
  type : String
  hosted : Bool := false
  health : Health := .healthy

def hostedRuntimeTypes : List String := ["anthropic", "openai", "google", "nvidia"]

/-! Computers. -/

structure GPUInfo where
  memoryGB : ℚ
  unifiedMemory : Bool := false
  cuda : Bool := false

structure ResourceState where
  cpuPercent : ℚ
  memoryAvailableGB : Option ℚ := none
  gpuMemoryUsedGB : Option ℚ := none
  gpuMemoryAvailableGB : Option ℚ := none

/-- The older reservations have no bytes but `memoryGB` and `gpuMemoryGB`. -/
structure ResourceReservation where
  memoryBytes : ℚ := 0
  vramBytes : ℚ := 0
  memoryGB : ℚ := 0
  gpuMemoryGB : ℚ := 0
  settled : Bool := false

inductive ComputerStatus where
  | online
  | offline
  | maintenance
  deriving DecidableEq

structure Computer where
  id : String
  status : ComputerStatus := .online
  isLocal : Bool := false
  platform : String
  architecture : String
  memoryGB : ℚ
  gpu : Option GPUInfo := none
  load : Option ResourceState := none
  reservations : List ResourceReservation := []
  health : Health := .healthy

/-! The registries, in the order of registration. -/

structure Registered where
  models : List ModelRecord
  instances : List ModelInstance
  runtimes : List RuntimeRecord
  computers : List Computer

/-- The registries are maps by id. -/
structure Fleet extends Registered where
  modelIds : (models.map (·.id)).Nodup
  instanceIds : (instances.map (·.id)).Nodup
  runtimeIds : (runtimes.map (·.id)).Nodup
  computerIds : (computers.map (·.id)).Nodup

namespace Registered

variable (localeCompare : String → String → Ordering) (fleet : Registered)

def model (id : String) : Option ModelRecord := fleet.models.find? (·.id = id)

def runtime (id : String) : Option RuntimeRecord := fleet.runtimes.find? (·.id = id)

def computer (id : String) : Option Computer := fleet.computers.find? (·.id = id)

/-- `list` of the models. -/
def listModels : List ModelRecord := sortBy (fun a b => localeCompare a.id b.id) fleet.models

def instancesOf (modelId : String) : List ModelInstance :=
  sortBy (fun a b => localeCompare a.id b.id) (fleet.instances.filter (·.modelId = modelId))

end Registered

theorem Registered.mem_instancesOf {localeCompare : String → String → Ordering} {fleet : Registered}
    {modelId : String} {i : ModelInstance} :
    i ∈ fleet.instancesOf localeCompare modelId ↔ i ∈ fleet.instances ∧ i.modelId = modelId := by
  rw [Registered.instancesOf, mem_sortBy, List.mem_filter, decide_eq_true_eq]

end Wazir.Scheduling
