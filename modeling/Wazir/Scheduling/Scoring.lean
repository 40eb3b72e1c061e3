import Wazir.Scheduling.Placement

/-! Which models a task may have and what speaks for each (`scoreModel` of `services/scheduler.ts`). -/

namespace Wazir.Scheduling

inductive Rejection where
  | capability (name : String)
  | toolCalling
  | vision
  | reasoning
  | context
  | allowedModels
  | hostedPolicy
  | localOnly
  | localRouting
  | providerOnly
  | noRuntime
  | circuit
  | loadedOnly
  | noInstance
  | excluded
  | placement (failures : List PlacementFailure)
  | resource
  deriving DecidableEq

structure ScoredModel where
  record : ModelRecord
  score : ℚ
  rejected : List Rejection
  placementFailures : Option (List PlacementFailure) := none

/-- `String.toLower` lowers ASCII letters only; the names of providers and runtimes have no others. -/
def isModelOfProvider (record : ModelRecord) (provider : String) : Bool :=
  record.provider.toLower = provider.toLower ||
    record.runtimeCompatibility.any fun types => types.any fun t => t.toLower = provider.toLower

/-- Only a hosted provider serves the model. -/
def ModelRecord.isHostedOnly (record : ModelRecord) : Bool :=
  record.runtimeCompatibility.any fun types => types ≠ [] && types.all (· ∈ hostedRuntimeTypes)

/-- The runtime type whose gate a model has to pass that only hosted providers serve. -/
def ModelRecord.hostedProvider (record : ModelRecord) : String :=
  ((record.runtimeCompatibility.getD []).head?).getD ""

def rejectIf (failed : Bool) (r : Rejection) : List Rejection := if failed then [r] else []

namespace PlacementRequest

variable (deps : SchedulerDeps) (fleet : Registered) (q : PlacementRequest)

def knownInstances : List ModelInstance := fleet.instancesOf deps.localeCompare q.record.id

def isLoaded : Bool :=
  (q.knownInstances deps fleet).any fun i => i.loaded && i.health = .healthy

def isHostedModel : Bool := !q.record.isLocal || q.record.isHostedOnly

/-- What the routing mode has against the model. -/
def routingRejections : List Rejection :=
  if q.routing.mode = .localOnly ∧ q.isHostedModel then [.localOnly]
  else if q.routing.isLocalRouting ∧ ¬ truthy q.routing.targetModelId ∧ q.isHostedModel then
    [.localRouting]
  else if q.routing.mode = .providerOnly then
    rejectIf (!isModelOfProvider q.record q.routing.targetProvider) .providerOnly
  else []

def modelRejections : List Rejection :=
  let req := q.task.requirements
  let known := q.knownInstances deps fleet
  (req.capabilities.filter (· ∉ q.record.capabilities)).map .capability ++
  rejectIf (req.toolCalling && !q.record.toolCalling) .toolCalling ++
  rejectIf (req.vision && !q.record.vision) .vision ++
  rejectIf (req.reasoning = some .high && !q.record.reasoning) .reasoning ++
  rejectIf (effectiveContextTokens q.record < q.requiredContext) .context ++
  rejectIf (q.task.policy.allowedModels.any (q.record.id ∉ ·)) .allowedModels ++
  rejectIf (q.record.isHostedOnly && !deps.checkHostedEligibility
    (hostedPolicy q.task q.record q.record.hostedProvider q.routing)) .hostedPolicy ++
  q.routingRejections ++
  rejectIf (known ≠ [] && known.all fun i => i.state = some .unavailable || i.health = .unavailable)
    .noRuntime ++
  rejectIf (deps.circuit q.record.id q.task.type = some .opened &&
    q.task.execution.targetModelId ≠ some q.record.id) .circuit ++
  rejectIf (q.routing.intelligentMode = .loadedOnly && !q.isLoaded deps fleet) .loadedOnly

/-! The score. -/

def isDefaultModel : Bool :=
  truthy q.routing.defaultModel && q.routing.defaultModel = some q.record.id

def cheap : Bool := deps.costTier q.record = .t1 || deps.costTier q.record = .t2

def strong : Bool := deps.costTier q.record = .t3 || deps.costTier q.record = .t4

def modeScore : ℚ :=
  let loaded := q.isLoaded deps fleet
  match q.routing.intelligentMode with
  | .fast => (if q.cheap deps then 25 else 0) + if loaded then 20 else 0
  | .powerful =>
    (if q.strong deps || q.record.reasoning then 30 else 0) +
      if q.routing.reasoningEffort = .high && q.record.reasoning then 15 else 0
  | .localFirst => (if q.record.isLocal then 35 else 0) + if loaded then 15 else 0
  | .balanced => (if q.cheap deps then 15 else 0) + if loaded then 15 else 0
  | .auto => (if loaded then 25 else 0) + if q.record.isLocal then 15 else 0
  | .loadedOnly | .strictModel => 0

def isLocalModel : Bool := q.record.isLocal && !q.record.isHostedOnly

def estimatedMemGB : ℚ :=
  (q.record.memory.minSystemGB.or q.record.memory.minGpuGB).getD
    (if q.isLocalModel then deps.estimateMemoryGB q.record else 0)

/-- Models that are loaded, and small ones, before large ones that have to be loaded. -/
def residencyScore : ℚ :=
  let memGB := q.estimatedMemGB deps
  let light := q.isLocalModel && q.task.requirements.reasoning ≠ some .high
  match (q.knownInstances deps fleet).find? fun i => i.loaded && i.health = .healthy with
  | some i =>
    (if i.state = some .ready then 30 else 15) -
      if light && 16 < memGB then max 0 (min 4 (⌊(memGB - 12) / 4⌋ : ℚ)) else 0
  | none =>
    if !light then 0
    else
      let coldEfficiencyBonus : ℚ := max 0 (6 - ⌊memGB / 4⌋)
      if 0 < coldEfficiencyBonus then coldEfficiencyBonus
      else if 20 ≤ memGB then -min 6 (⌊(memGB - 16) / 4⌋ : ℚ)
      else 0

def modelScore (harness : Option String) : ℚ :=
  let known := q.knownInstances deps fleet
  ((q.task.requirements.capabilities.filter (· ∈ q.record.capabilities)).length : ℚ) * 2 +
  (if q.record.toolCalling then 1 else 0) +
  (if q.routing.mode = .providerOnly && isModelOfProvider q.record q.routing.targetProvider then 5
    else 0) +
  (if q.isDefaultModel then 50 else 0) + q.modeScore deps fleet +
  deps.evidence q.task harness q.record known +
  (if 0 < q.requiredContext ∧ q.requiredContext * 2 ≤ effectiveContextTokens q.record then 1 else 0) +
  (if known = [] then 0 else q.residencyScore deps fleet)

end PlacementRequest

def scoreModel (deps : SchedulerDeps) (fleet : Registered) (q : PlacementRequest)
    (harness : Option String) : ScoredModel :=
  match q.modelRejections deps fleet with
  | [] =>
    { record := q.record
      score := q.modelScore deps fleet harness
      rejected := rejectIf (q.knownInstances deps fleet = []) .noInstance }
  | rejected => { record := q.record, score := 0, rejected }

end Wazir.Scheduling
