import Wazir.Scheduling.Scheduler

/-! What a task asks of a model and of an instance, and that the two phases check exactly that. -/

namespace Wazir.Scheduling

open PlacementRequest

/-- Some instance is known that may answer. -/
def Served (fleet : Registered) (q : PlacementRequest) : Prop :=
  ∃ i ∈ fleet.instances, i.modelId = q.record.id ∧ i.state ≠ some .unavailable ∧
    i.health ≠ .unavailable

/-- What the task, its policy, the routing and the circuits ask of a model. -/
structure ModelFits (deps : SchedulerDeps) (fleet : Registered) (q : PlacementRequest)
    (excluded : List String) : Prop where
  capabilities : ∀ c ∈ q.task.requirements.capabilities, c ∈ q.record.capabilities
  toolCalling : q.task.requirements.toolCalling → q.record.toolCalling
  vision : q.task.requirements.vision → q.record.vision
  reasoning : q.task.requirements.reasoning = some .high → q.record.reasoning
  context : q.requiredContext ≤ effectiveContextTokens q.record
  allowedModels : ∀ l, q.task.policy.allowedModels = some l → q.record.id ∈ l
  hostedPolicy : q.record.isHostedOnly → deps.checkHostedEligibility
    (hostedPolicy q.task q.record q.record.hostedProvider q.routing)
  localOnly : q.routing.mode = .localOnly → ¬ q.isHostedModel
  localRouting : q.routing.isLocalRouting → ¬ truthy q.routing.targetModelId → ¬ q.isHostedModel
  ofProvider : q.routing.mode = .providerOnly →
    isModelOfProvider q.record q.routing.targetProvider
  served : Served fleet q
  circuit : deps.circuit q.record.id q.task.type = some .opened →
    q.task.execution.targetModelId = some q.record.id
  loaded : q.routing.intelligentMode = .loadedOnly → q.isLoaded deps fleet
  notExcluded : q.record.id ∉ excluded

/-- What is asked of every instance. -/
structure InstanceFits (fleet : Registered) (q : PlacementRequest) (i : ModelInstance) : Prop where
  settled : i.state ≠ some .draining ∧ i.state ≠ some .unloading ∧ i.state ≠ some .loading
  targetComputer : truthy q.task.execution.targetComputerId →
    i.computerId = q.task.execution.targetComputerId
  targetRuntime : truthy q.task.execution.targetRuntimeId →
    some i.runtimeId = q.task.execution.targetRuntimeId
  provider : q.routing.mode = .providerOnly → i.runtimeId.toLower = q.routing.targetProvider ∨
    ∃ r, fleet.runtime i.runtimeId = some r ∧ r.type.toLower = q.routing.targetProvider
  healthy : i.health ≠ .unavailable
  runtimeUp : ∀ r, fleet.runtime i.runtimeId = some r → r.health ≠ .unavailable
  allowedRuntimes : ∀ l, q.task.policy.allowedRuntimes = some l → i.runtimeId ∈ l
  compatible : ∀ types, q.record.runtimeCompatibility = some types →
    ((fleet.runtime i.runtimeId).map (·.type)).getD i.runtimeId ∈ types

/-- What is asked where a provider hosts the instance. -/
structure HostedFits (deps : SchedulerDeps) (fleet : Registered) (q : PlacementRequest)
    (i : ModelInstance) : Prop where
  registered : (fleet.runtime i.runtimeId).isSome
  notLocalOnly : q.routing.mode ≠ .localOnly
  policy : deps.checkHostedEligibility (hostedPolicy q.task q.record i.runtimeId q.routing)
  os : q.task.requirements.os = none
  architecture : q.task.requirements.architecture = none
  cuda : q.task.requirements.requiresCuda = false
  gpu : q.task.requirements.requiresGpu = false
  allowedComputers : q.task.policy.allowedComputers = none

/-- What is asked of a computer. -/
structure ComputerFits (deps : SchedulerDeps) (fleet : Registered) (q : PlacementRequest)
    (i : ModelInstance) (c : Computer) : Prop where
  online : c.status = .online
  os : ∀ l, q.task.requirements.os = some l → normalizePlatform c.platform ∈ l.map normalizePlatform
  architecture : ∀ l, q.task.requirements.architecture = some l →
    normalizeArch c.architecture ∈ l.map normalizeArch
  gpu : q.task.requirements.requiresGpu → c.gpu.isSome
  cuda : q.task.requirements.requiresCuda → ∃ g, c.gpu = some g ∧ g.cuda
  allowedComputers : ∀ l, q.task.policy.allowedComputers = some l → c.id ∈ l
  notRemote : q.task.policy.localOnly → c.isLocal
  memory : q.requiredSystemGB ≤ c.memoryGB
  availableMemory : i.loaded = false → ∀ usable, c.usableSystemGB = some usable →
    q.requiredSystemGB ≤ usable
  gpuMemory : 0 < q.requiredGpuGB → q.requiredGpuGB ≤ c.gpuGB
  kvCache : c.gpu.isSome → 0 < q.requiredGpuGB → q.requiredGpuGB + q.kvCacheGB i c ≤ c.gpuGB
  usableGpuMemory : ∀ usable, c.usableGpuGB = some usable → q.neededGpuGB i c ≤ usable
  device : (deps.assessDevice q.record c i (fleet.runtime i.runtimeId)).rejectionReasons = []
  contextPlan : q.contextPlan deps i c (fleet.runtime i.runtimeId) = none

/-- Where an instance may be placed: with its hosted provider, or on its computer. -/
inductive Placeable (deps : SchedulerDeps) (fleet : Registered) (q : PlacementRequest)
    (i : ModelInstance) : Option Computer → Prop
  | hosted : InstanceFits fleet q i → isHosted fleet i → HostedFits deps fleet q i →
      Placeable deps fleet q i none
  | onComputer {c : Computer} : InstanceFits fleet q i → isHosted fleet i = false →
      i.computerId.bind fleet.computer = some c → ComputerFits deps fleet q i c →
      Placeable deps fleet q i (some c)

/-! The checks. -/

theorem firstFailure_eq_none {checks : List (Bool × PlacementFailure)} :
    firstFailure checks = none ↔ ∀ c ∈ checks, c.1 = false := by
  induction checks with
  | nil => simp [firstFailure]
  | cons c rest ih =>
    obtain ⟨failed, failure⟩ := c
    cases failed <;> simp [firstFailure, ih]

@[simp] theorem hostedPolicy_allowedComputers (task : Task) (record : ModelRecord) (p : String)
    (routing : ResolvedRoutingConstraint) :
    (hostedPolicy task record p routing).allowedComputers = task.policy.allowedComputers := by
  unfold hostedPolicy effectivePolicyForHosted
  dsimp only
  split_ifs <;> rfl

@[simp] theorem hostedPolicy_allowedRuntimes (task : Task) (record : ModelRecord) (p : String)
    (routing : ResolvedRoutingConstraint) :
    (hostedPolicy task record p routing).allowedRuntimes = task.policy.allowedRuntimes := by
  unfold hostedPolicy effectivePolicyForHosted
  dsimp only
  split_ifs <;> rfl

theorem option_any_eq_false {α : Type} {o : Option α} {p : α → Bool} :
    o.any p = false ↔ ∀ a, o = some a → p a = false := by
  cases o <;> simp

variable {deps : SchedulerDeps} {fleet : Registered} {q : PlacementRequest} {i : ModelInstance}

theorem commonChecks_passed :
    firstFailure (q.commonChecks i (fleet.runtime i.runtimeId)) = none ↔
      (i.state ≠ some .draining ∧ i.state ≠ some .unloading ∧ i.state ≠ some .loading) ∧
      (truthy q.task.execution.targetComputerId →
        i.computerId = q.task.execution.targetComputerId) ∧
      (truthy q.task.execution.targetRuntimeId →
        some i.runtimeId = q.task.execution.targetRuntimeId) ∧
      (q.routing.mode = .providerOnly → i.runtimeId.toLower = q.routing.targetProvider ∨
        ∃ r, fleet.runtime i.runtimeId = some r ∧ r.type.toLower = q.routing.targetProvider) := by
  simp only [firstFailure_eq_none, commonChecks, List.forall_mem_cons]
  simp [or_iff_not_imp_left, Option.any_eq_true]

theorem hostedChecks_passed :
    firstFailure (q.hostedChecks deps i (fleet.runtime i.runtimeId)) = none ↔
      HostedFits deps fleet q i ∧
      (∀ l, q.task.policy.allowedRuntimes = some l → i.runtimeId ∈ l) ∧
      (∀ r, fleet.runtime i.runtimeId = some r → r.health ≠ .unavailable) ∧
      i.health ≠ .unavailable ∧
      ∀ types, q.record.runtimeCompatibility = some types →
        ((fleet.runtime i.runtimeId).map (·.type)).getD i.runtimeId ∈ types := by
  simp only [firstFailure_eq_none, hostedChecks, incompatible, List.forall_mem_cons]
  simp [option_any_eq_false, Option.any_eq_true]
  constructor
  · rintro ⟨mode, policy, os, arch, cuda, gpu, computers, runtimes, ⟨r, hr, up⟩, healthy, compatible⟩
    refine ⟨⟨by simp [hr], mode, policy, os, arch, cuda, gpu, computers⟩, runtimes, fun r' hr' => ?_,
      healthy, compatible⟩
    cases hr.symm.trans hr'
    exact up
  · rintro ⟨fits, runtimes, up, healthy, compatible⟩
    obtain ⟨r, hr⟩ := Option.isSome_iff_exists.mp fits.registered
    exact ⟨fits.notLocalOnly, fits.policy, fits.os, fits.architecture, fits.cuda, fits.gpu,
      fits.allowedComputers, runtimes, ⟨r, hr, up r hr⟩, healthy, compatible⟩

theorem computerChecks_passed {c : Computer} :
    firstFailure (q.computerChecks deps i c (fleet.runtime i.runtimeId)) = none ↔
      ComputerFits deps fleet q i c ∧
      (∀ l, q.task.policy.allowedRuntimes = some l → i.runtimeId ∈ l) ∧
      (∀ r, fleet.runtime i.runtimeId = some r → r.health ≠ .unavailable) ∧
      i.health ≠ .unavailable ∧
      ∀ types, q.record.runtimeCompatibility = some types →
        ((fleet.runtime i.runtimeId).map (·.type)).getD i.runtimeId ∈ types := by
  simp only [firstFailure_eq_none, computerChecks, incompatible, List.forall_mem_cons]
  simp [option_any_eq_false, Option.any_eq_true]
  constructor
  · rintro ⟨online, os, arch, gpu, cuda, computers, notRemote, runtimes, up, healthy, compatible,
      memory, available, gpuMemory, kv, usable, device, plan⟩
    exact ⟨⟨online, by simpa using os, by simpa using arch, gpu, cuda, computers, notRemote, memory,
      available, gpuMemory, kv, usable, device, plan⟩, runtimes, up, healthy, compatible⟩
  · rintro ⟨fits, runtimes, up, healthy, compatible⟩
    exact ⟨fits.online, by simpa using fits.os, by simpa using fits.architecture, fits.gpu, fits.cuda,
      fits.allowedComputers, fits.notRemote, runtimes, up, healthy, compatible, fits.memory,
      fits.availableMemory, fits.gpuMemory, fits.kvCache, fits.usableGpuMemory, fits.device,
      fits.contextPlan⟩

/-! Placements. -/

theorem assessPlacement_placeable {p : ScoredPlacement} (h : assessPlacement deps fleet q i = .ok p) :
    p.inst = i ∧ Placeable deps fleet q i p.computer := by
  unfold assessPlacement at h
  dsimp only at h
  split at h
  · cases h
  next common =>
  obtain ⟨settled, targetComputer, targetRuntime, provider⟩ := commonChecks_passed.mp common
  by_cases hosted : isHosted fleet i = true
  · rw [if_pos hosted] at h
    split at h
    · cases h
    next checked =>
    cases h
    obtain ⟨fits, runtimes, up, healthy, compatible⟩ := hostedChecks_passed.mp checked
    exact ⟨rfl, .hosted ⟨settled, targetComputer, targetRuntime, provider, healthy, up, runtimes,
      compatible⟩ hosted fits⟩
  · rw [if_neg hosted] at h
    split at h
    · cases h
    next c hc =>
    split at h
    · cases h
    next checked =>
    cases h
    obtain ⟨fits, runtimes, up, healthy, compatible⟩ := computerChecks_passed.mp checked
    exact ⟨rfl, .onComputer ⟨settled, targetComputer, targetRuntime, provider, healthy, up, runtimes,
      compatible⟩ (Bool.eq_false_of_not_eq_true hosted) hc fits⟩

theorem Placeable.assessed {place : Option Computer} (h : Placeable deps fleet q i place) :
    ∃ p, assessPlacement deps fleet q i = .ok p := by
  have common (fits : InstanceFits fleet q i) :
      firstFailure (q.commonChecks i (fleet.runtime i.runtimeId)) = none :=
    commonChecks_passed.mpr ⟨fits.settled, fits.targetComputer, fits.targetRuntime, fits.provider⟩
  cases h with
  | hosted fits hosted onHost =>
    have checked := hostedChecks_passed.mpr
      ⟨onHost, fits.allowedRuntimes, fits.runtimeUp, fits.healthy, fits.compatible⟩
    simp [assessPlacement, common fits, hosted, checked]
  | onComputer fits hosted found onComputer =>
    have checked := computerChecks_passed.mpr
      ⟨onComputer, fits.allowedRuntimes, fits.runtimeUp, fits.healthy, fits.compatible⟩
    simp [assessPlacement, common fits, hosted, found, checked]

theorem mem_assessPlacements {p : ScoredPlacement} :
    p ∈ assessPlacements deps fleet q ↔
      ∃ i ∈ fleet.instances, i.modelId = q.record.id ∧ assessPlacement deps fleet q i = .ok p := by
  simp only [assessPlacements, List.mem_filterMap, Registered.mem_instancesOf, and_assoc]
  refine exists_congr fun i => and_congr_right fun _ => and_congr_right fun _ => ?_
  cases assessPlacement deps fleet q i <;> simp [Except.toOption]

/-- The model can be placed somewhere. -/
def Hostable (deps : SchedulerDeps) (fleet : Registered) (q : PlacementRequest) : Prop :=
  ∃ i ∈ fleet.instances, i.modelId = q.record.id ∧ ∃ place, Placeable deps fleet q i place

theorem assessPlacements_ne_nil : assessPlacements deps fleet q ≠ [] ↔ Hostable deps fleet q := by
  constructor
  · intro some
    obtain ⟨p, hp⟩ := List.exists_mem_of_ne_nil _ some
    obtain ⟨i, hi, hm, ok⟩ := mem_assessPlacements.mp hp
    exact ⟨i, hi, hm, p.computer, (assessPlacement_placeable ok).2⟩
  · rintro ⟨i, hi, hm, place, h⟩
    obtain ⟨p, ok⟩ := h.assessed
    exact List.ne_nil_of_mem (mem_assessPlacements.mpr ⟨i, hi, hm, ok⟩)

/-! Models. -/

theorem rejectIf_eq_nil {failed : Bool} {r : Rejection} : rejectIf failed r = [] ↔ failed = false := by
  cases failed <;> simp [rejectIf]

theorem routingRejections_eq_nil :
    q.routingRejections = [] ↔ (q.routing.mode = .localOnly → ¬ q.isHostedModel) ∧
      (q.routing.isLocalRouting → ¬ truthy q.routing.targetModelId → ¬ q.isHostedModel) ∧
      (q.routing.mode = .providerOnly → isModelOfProvider q.record q.routing.targetProvider) := by
  unfold routingRejections
  split_ifs with notHere only provider
  · simp [notHere]
  · simp [only]
  · simp only [rejectIf_eq_nil, Bool.not_eq_false', provider]
    refine ⟨fun h => ⟨by simp, fun routed pin hosted => only ⟨routed, pin, hosted⟩, fun _ => h⟩, ?_⟩
    exact fun h => h.2.2 trivial
  · simp only [true_iff]
    exact ⟨fun h hosted => notHere ⟨h, hosted⟩, fun routed pin hosted => only ⟨routed, pin, hosted⟩,
      fun h => absurd h provider⟩

theorem served_iff (deps : SchedulerDeps) :
    Served fleet q ↔ q.knownInstances deps fleet ≠ [] ∧
      (q.knownInstances deps fleet).all
        (fun i => i.state = some .unavailable || i.health = .unavailable) = false := by
  simp only [List.all_eq_false, knownInstances]
  constructor
  · rintro ⟨i, hi, hm, state, health⟩
    have known : i ∈ fleet.instancesOf deps.localeCompare q.record.id :=
      Registered.mem_instancesOf.mpr ⟨hi, hm⟩
    exact ⟨List.ne_nil_of_mem known, i, known, by simp [state, health]⟩
  · rintro ⟨-, i, known, up⟩
    obtain ⟨hi, hm⟩ := Registered.mem_instancesOf.mp known
    exact ⟨i, hi, hm, by simpa using up⟩

theorem scoreModel_rejected {harness : Option String} :
    (scoreModel deps fleet q harness).rejected = [] ↔
      q.modelRejections deps fleet = [] ∧ q.knownInstances deps fleet ≠ [] := by
  unfold scoreModel
  split
  next none => simp [none, rejectIf_eq_nil]
  next rejected some => exact iff_of_false some fun h => some h.1

theorem modelFits_iff {excluded : List String} (harness : Option String) :
    ModelFits deps fleet q excluded ↔
      (scoreModel deps fleet q harness).rejected = [] ∧ q.record.id ∉ excluded := by
  rw [scoreModel_rejected]
  simp only [modelRejections, List.append_eq_nil_iff, rejectIf_eq_nil, routingRejections_eq_nil,
    List.map_eq_nil_iff, List.filter_eq_nil_iff, option_any_eq_false, decide_eq_false_iff_not,
    Bool.and_eq_false_imp, Bool.not_eq_false', decide_eq_true_eq, not_not, not_lt]
  constructor
  · intro h
    obtain ⟨known, up⟩ := (served_iff deps).mp h.served
    exact ⟨⟨⟨⟨⟨⟨⟨⟨⟨⟨⟨⟨h.capabilities, h.toolCalling⟩, h.vision⟩, h.reasoning⟩, h.context⟩,
      h.allowedModels⟩, h.hostedPolicy⟩, h.localOnly, h.localRouting, h.ofProvider⟩, fun _ => up⟩,
      h.circuit⟩, h.loaded⟩, known⟩, h.notExcluded⟩
  · rintro ⟨⟨⟨⟨⟨⟨⟨⟨⟨⟨⟨⟨capabilities, toolCalling⟩, vision⟩, reasoning⟩, context⟩, allowedModels⟩,
      hostedPolicy⟩, localOnly, localRouting, ofProvider⟩, up⟩, circuit⟩, loaded⟩, known⟩, notExcluded⟩
    exact ⟨capabilities, toolCalling, vision, reasoning, context, allowedModels, hostedPolicy, localOnly,
      localRouting, ofProvider, (served_iff deps).mpr ⟨known, up known⟩, circuit, loaded, notExcluded⟩

/-- The model suits the task and can be placed. -/
def Eligible (deps : SchedulerDeps) (fleet : Registered) (q : PlacementRequest)
    (excluded : List String) : Prop :=
  ModelFits deps fleet q excluded ∧ Hostable deps fleet q

theorem scoreModel_record {harness : Option String} :
    (scoreModel deps fleet q harness).record = q.record := by
  unfold scoreModel
  split <;> rfl

/-- The request that a model of the list stands for. -/
def ScheduleInput.request (input : ScheduleInput) (requiredContext : ℕ)
    (routing : ResolvedRoutingConstraint) (record : ModelRecord) : PlacementRequest :=
  { task := input.task, record, requiredContext, routing }

theorem assessModel_record {input : ScheduleInput} {requiredContext : ℕ}
    {routing : ResolvedRoutingConstraint} {harness : Option String} {record : ModelRecord} :
    (assessModel deps fleet input requiredContext routing harness record).record = record := by
  unfold assessModel
  dsimp only
  split_ifs <;> exact scoreModel_record

theorem assessModel_eligible {input : ScheduleInput} {requiredContext : ℕ}
    {routing : ResolvedRoutingConstraint} {harness : Option String} {record : ModelRecord} :
    (assessModel deps fleet input requiredContext routing harness record).rejected = [] ↔
      Eligible deps fleet (input.request requiredContext routing record) input.excludeModelIds := by
  rw [Eligible, modelFits_iff harness, ← assessPlacements_ne_nil]
  unfold assessModel ScheduleInput.request
  dsimp only
  split_ifs with h
  · simp [h.2]
  · simp only [List.append_eq_nil_iff, rejectIf_eq_nil, decide_eq_false_iff_not, not_and] at h ⊢
    exact ⟨fun fits => ⟨fits, h fits⟩, fun fits => fits.1⟩

end Wazir.Scheduling
