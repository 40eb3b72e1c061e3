import Wazir.Scheduling.Sound

/-! The routing policy of the engine, and what of it survives the execution mode of a task and the
preference of the operator. -/

namespace Wazir.Scheduling

/-- The provider that a policy names. -/
def RoutingPolicyConfig.only (cfg : RoutingPolicyConfig) : String :=
  (cfg.provider.map String.toLower).getD "nvidia"

/-- The model and the placement are what the policy of the engine lets through. -/
def KeepsPolicy (cfg : RoutingPolicyConfig) (fleet : Registered) (d : SchedulerDecision) : Prop :=
  match cfg.mode with
  | .providerOnly =>
    (∃ m ∈ fleet.models, m.id = d.modelId ∧ isModelOfProvider m cfg.only) ∧
      (d.runtimeId.toLower = cfg.only ∨
        ∃ r, fleet.runtime d.runtimeId = some r ∧ r.type.toLower = cfg.only)
  | .localOnly =>
    (∃ m ∈ fleet.models, m.id = d.modelId ∧ m.isLocal) ∧ d.placementKind ≠ .hosted
  | .auto | .hybrid => True

/-- No execution mode and no preference is put in the place of the policy's mode. -/
def ModeStands (cfg : RoutingPolicyConfig) (preferences : Option ModelPreferenceService)
    (mode : Option ExecutionMode) : Prop :=
  match cfg.mode with
  | .providerOnly => mode = none ∧ preferences = none
  | .localOnly => mode = some .localMode ∨
    mode = none ∧ ∀ s, preferences = some s → s.getEffectivePreference.mode = .localMode
  | .auto | .hybrid => True

section

variable {cfg : RoutingPolicyConfig} {preferences : Option ModelPreferenceService} {task : Task}

theorem resolve_unnamed {pref : Option EffectiveModelPreference} (own : truthy task.rawMode = false) :
    ModeChoice.resolve (some cfg) pref task =
      match task.execution.executionMode, pref with
      | some mode, _ => (ModeChoice.ofPolicy (some cfg)).ofExecutionMode mode
      | none, some pref => (ModeChoice.ofPolicy (some cfg)).ofPreference pref
      | none, none => ModeChoice.ofPolicy (some cfg) := by
  cases hmode : task.execution.executionMode with
  | some mode => simp only [ModeChoice.resolve, own, hmode, Bool.false_eq_true, if_false]
  | none => cases pref <;> simp only [ModeChoice.resolve, own, hmode, Bool.false_eq_true, if_false]

theorem providerOnly_stands (own : truthy task.rawMode = false) (policy : cfg.mode = .providerOnly)
    (unset : task.execution.executionMode = none) :
    (resolveRoutingConstraint (some cfg) none task).mode = .providerOnly ∧
      (resolveRoutingConstraint (some cfg) none task).targetProvider = cfg.only := by
  simp only [resolveRoutingConstraint, ResolvedRoutingConstraint.targetProvider, resolve_unnamed own,
    unset, Option.map_none, ModeChoice.ofPolicy, policy]
  exact ⟨trivial, rfl⟩

theorem localOnly_stands (own : truthy task.rawMode = false) (policy : cfg.mode = .localOnly)
    (stands : ModeStands cfg preferences task.execution.executionMode) :
    (resolveRoutingConstraint (some cfg) preferences task).mode = .localOnly := by
  simp only [ModeStands, policy] at stands
  simp only [resolveRoutingConstraint, resolve_unnamed own]
  obtain mode | ⟨unset, pref⟩ := stands
  · simp only [mode, ModeChoice.ofExecutionMode]
  · cases preferences with
    | none => simp only [unset, Option.map_none, ModeChoice.ofPolicy, policy]
    | some s => simp only [unset, Option.map_some, ModeChoice.ofPreference, pref s rfl]

end

variable {deps : SchedulerDeps} {fleet : Fleet} {input : ScheduleInput} {d : SchedulerDecision}
  {cfg : RoutingPolicyConfig}

/-- Both phases enforce a fixed provider. -/
theorem Planned.ofProvider {record : ModelRecord} {i : ModelInstance} {place : Option Computer}
    (h : Planned deps fleet.toRegistered input d record i place)
    (mode : (input.constraint deps).mode = .providerOnly) :
    isModelOfProvider record (input.constraint deps).targetProvider ∧
      (d.runtimeId.toLower = (input.constraint deps).targetProvider ∨
        ∃ r, fleet.runtime d.runtimeId = some r ∧
          r.type.toLower = (input.constraint deps).targetProvider) := by
  have fits : InstanceFits fleet.toRegistered (input.asks deps record) i := by
    cases h.placed <;> assumption
  rw [h.runtime]
  exact ⟨h.fits.ofProvider mode, fits.provider mode⟩

/-- Neither phase lets a hosted model through. -/
theorem Planned.localOnly {record : ModelRecord} {i : ModelInstance} {place : Option Computer}
    (h : Planned deps fleet.toRegistered input d record i place)
    (mode : (input.constraint deps).mode = .localOnly) :
    record.isLocal ∧ d.placementKind ≠ .hosted := by
  constructor
  · have notHosted := h.fits.localOnly mode
    simp only [PlacementRequest.isHostedModel, Bool.or_eq_true, not_or] at notHosted
    simpa [ScheduleInput.asks, ScheduleInput.request] using notHosted.1
  · intro hosted
    have nowhere := h.kind.mp hosted
    subst nowhere
    cases h.placed with
    | hosted _ _ onHost => exact onHost.notLocalOnly mode

theorem policy_kept {mode : Option ExecutionMode} (routing : deps.routing = some cfg)
    (executionMode : input.task.execution.executionMode = mode)
    (own : truthy input.task.rawMode = false) (stands : ModeStands cfg deps.preferences mode)
    (planned : plan deps fleet.toRegistered input = .ok d) :
    KeepsPolicy cfg fleet.toRegistered d := by
  obtain ⟨record, i, place, h⟩ := plan_planned planned
  subst executionMode
  unfold KeepsPolicy
  cases policy : cfg.mode with
  | auto => trivial
  | hybrid => trivial
  | providerOnly =>
    have stands' := stands
    simp only [ModeStands, policy] at stands'
    obtain ⟨mode, provider⟩ := providerOnly_stands own policy stands'.1
    have same : input.constraint deps = resolveRoutingConstraint (some cfg) none input.task := by
      rw [ScheduleInput.constraint, routing, stands'.2]
    rw [← same] at mode provider
    obtain ⟨model, runtime⟩ := h.ofProvider mode
    rw [provider] at model runtime
    exact ⟨⟨record, h.registered, h.model.symm, model⟩, runtime⟩
  | localOnly =>
    have mode := localOnly_stands own policy stands
    have same : input.constraint deps =
        resolveRoutingConstraint (some cfg) deps.preferences input.task := by
      rw [ScheduleInput.constraint, routing]
    obtain ⟨isLocal, placed⟩ := h.localOnly (same ▸ mode)
    exact ⟨⟨record, h.registered, h.model.symm, isLocal⟩, placed⟩

/-! Where something else is put in its place, a fleet of one pinned model shows it. -/

/-- A task that pins the model, and is allowed every provider. -/
def pinning (mode : Option ExecutionMode) : ScheduleInput where
  task :=
    { policy := { allowHostedProviders := some true }
      execution := { targetModelId := some "llama", executionMode := mode } }

/-- A scheduler with the policy and the preferences. -/
def policyDeps (cfg : RoutingPolicyConfig) (preferences : Option ModelPreferenceService) :
    SchedulerDeps :=
  { plainDeps with routing := some cfg, preferences }

/-- A model of a provider, on the laptop. -/
def localFleet (provider : String) : Fleet where
  models := [{ localModel "llama" with provider }]
  instances := [{ onLaptop "a" "llama" .ready with runtimeId := provider }]
  runtimes := [{ id := provider, type := provider }]
  computers := [laptop]
  modelIds := List.nodup_singleton _
  instanceIds := List.nodup_singleton _
  runtimeIds := List.nodup_singleton _
  computerIds := List.nodup_singleton _

/-- A model that a provider hosts. -/
def hostedFleet : Fleet where
  models := [{ localModel "llama" with provider := "nvidia", isLocal := false }]
  instances := [{ id := "a", modelId := "llama", runtimeId := "nvidia", loaded := true }]
  runtimes := [{ id := "nvidia", type := "nvidia", hosted := true }]
  computers := []
  modelIds := List.nodup_singleton _
  instanceIds := List.nodup_singleton _
  runtimeIds := List.nodup_singleton _
  computerIds := List.nodup_nil

section

variable {preferences : Option ModelPreferenceService} {mode : Option ExecutionMode}

theorem pinning_pin :
    (pinning mode).pin (policyDeps cfg preferences) = some "llama" := rfl

/-- The model is pinned, so that it is planned if only the two phases let it through. -/
theorem plan_pinning {fleet : Fleet} {record : ModelRecord} (registered : record ∈ fleet.models)
    (named : record.id = "llama")
    (eligible : Eligible (policyDeps cfg preferences) fleet.toRegistered
      ((pinning mode).asks (policyDeps cfg preferences) record) []) :
    ∃ d, plan (policyDeps cfg preferences) fleet.toRegistered (pinning mode) = .ok d := by
  refine plan_some rfl (show resolveAgent _ _ _ = .ok none from rfl) registered eligible (fun _ => ?_) fun unpinned => ?_
  · rw [pinning_pin, named]
    exact ⟨rfl, by decide⟩
  · have pinned : (pinning mode).isPinned (policyDeps cfg preferences) = true := by
      rw [ScheduleInput.isPinned, pinning_pin, Bool.or_eq_true]
      exact .inr rfl
    rw [pinned] at unpinned
    cases unpinned

theorem localFleet_runtime (provider : String) :
    (localFleet provider).runtime provider = some { id := provider, type := provider } := by
  simp [Registered.runtime, localFleet]

/-- What a task says of hosted providers is not overridden. -/
theorem hostedPolicy_set {task : Task} {record : ModelRecord} {p : String}
    {routing : ResolvedRoutingConstraint} (allowed : Bool)
    (set : task.policy.allowHostedProviders = some allowed) :
    hostedPolicy task record p routing = task.policy := by
  simp [hostedPolicy, effectivePolicyForHosted, set]

/-- The task asks nothing of a model but its id. -/
theorem pinning_fits {fleet : Registered} {record : ModelRecord}
    (anywhere : record.runtimeCompatibility = none)
    (served : Served fleet ((pinning mode).asks (policyDeps cfg preferences) record))
    (notProvider : ((pinning mode).constraint (policyDeps cfg preferences)).mode ≠ .providerOnly)
    (here : ((pinning mode).constraint (policyDeps cfg preferences)).mode = .localOnly →
      record.isLocal)
    (loaded : ((pinning mode).constraint (policyDeps cfg preferences)).intelligentMode ≠ .loadedOnly) :
    ModelFits (policyDeps cfg preferences) fleet
      ((pinning mode).asks (policyDeps cfg preferences) record) [] where
  capabilities _ h := absurd h List.not_mem_nil
  toolCalling h := absurd h Bool.false_ne_true
  vision h := absurd h Bool.false_ne_true
  reasoning h := absurd h nofun
  context := Nat.zero_le _
  allowedModels _ h := absurd h (by simp [ScheduleInput.asks, ScheduleInput.request, pinning])
  hostedPolicy h := absurd h (by
    simp [ModelRecord.isHostedOnly, ScheduleInput.asks, ScheduleInput.request, anywhere])
  localOnly h := by
    simp [PlacementRequest.isHostedModel, ModelRecord.isHostedOnly, ScheduleInput.asks,
      ScheduleInput.request, anywhere, here h]
  localRouting _ unpinned := absurd (show truthy (some "llama") = true from rfl) unpinned
  ofProvider h := absurd h notProvider
  served := served
  circuit h := absurd h (by simp [policyDeps, plainDeps])
  loaded h := absurd h loaded
  notExcluded := List.not_mem_nil

theorem local_eligible (provider : String)
    (notProvider : ((pinning mode).constraint (policyDeps cfg preferences)).mode ≠ .providerOnly)
    (loaded : ((pinning mode).constraint (policyDeps cfg preferences)).intelligentMode ≠ .loadedOnly) :
    Eligible (policyDeps cfg preferences) (localFleet provider).toRegistered
      ((pinning mode).asks (policyDeps cfg preferences) { localModel "llama" with provider }) [] := by
  have served : Served (localFleet provider).toRegistered ((pinning mode).asks
      (policyDeps cfg preferences) { localModel "llama" with provider }) :=
    ⟨_, List.mem_cons_self, rfl, by simp [onLaptop], by simp [onLaptop]⟩
  refine ⟨pinning_fits rfl served notProvider (fun _ => rfl) loaded,
    { onLaptop "a" "llama" .ready with runtimeId := provider }, List.mem_cons_self, rfl,
    some laptop, .onComputer ?_ ?_ rfl ?_⟩
  · exact
      { settled := by simp [onLaptop]
        targetComputer := fun h => absurd h Bool.false_ne_true
        targetRuntime := fun h => absurd h Bool.false_ne_true
        provider := fun h => absurd h notProvider
        healthy := by simp [onLaptop]
        runtimeUp := by simp [localFleet_runtime]
        allowedRuntimes := fun _ h => absurd h (by simp [ScheduleInput.asks, ScheduleInput.request, pinning])
        compatible := fun _ h => absurd h (by simp [ScheduleInput.asks, ScheduleInput.request, localModel]) }
  · simp [isHosted, localFleet_runtime, onLaptop, truthy]
  · exact
      { online := rfl
        os := fun _ h => absurd h (by simp [ScheduleInput.asks, ScheduleInput.request, pinning])
        architecture := fun _ h => absurd h (by simp [ScheduleInput.asks, ScheduleInput.request, pinning])
        gpu := fun h => absurd h Bool.false_ne_true
        cuda := fun h => absurd h Bool.false_ne_true
        allowedComputers := fun _ h =>
          absurd h (by simp [ScheduleInput.asks, ScheduleInput.request, pinning])
        notRemote := fun h => absurd h Bool.false_ne_true
        memory := by
          simp [PlacementRequest.requiredSystemGB, ScheduleInput.asks, ScheduleInput.request, pinning,
            localModel, laptop]
        availableMemory := fun h => absurd h Bool.true_eq_false.mp
        gpuMemory := fun h => absurd h (by
          simp [PlacementRequest.requiredGpuGB, ScheduleInput.asks, ScheduleInput.request, pinning, localModel])
        kvCache := fun h => absurd h Bool.false_ne_true
        usableGpuMemory := fun _ h => absurd h (by simp [Computer.usableGpuGB, laptop])
        device := rfl
        contextPlan := rfl }

theorem hosted_eligible
    (notProvider : ((pinning mode).constraint (policyDeps cfg preferences)).mode ≠ .providerOnly)
    (notLocal : ((pinning mode).constraint (policyDeps cfg preferences)).mode ≠ .localOnly)
    (loaded : ((pinning mode).constraint (policyDeps cfg preferences)).intelligentMode ≠ .loadedOnly) :
    Eligible (policyDeps cfg preferences) hostedFleet.toRegistered
      ((pinning mode).asks (policyDeps cfg preferences)
        { localModel "llama" with provider := "nvidia", isLocal := false }) [] := by
  have served : Served hostedFleet.toRegistered ((pinning mode).asks (policyDeps cfg preferences)
      { localModel "llama" with provider := "nvidia", isLocal := false }) :=
    ⟨_, List.mem_cons_self, rfl, by simp, by simp⟩
  refine ⟨pinning_fits rfl served notProvider (fun h => absurd h notLocal) loaded,
    { id := "a", modelId := "llama", runtimeId := "nvidia", loaded := true }, List.mem_cons_self, rfl,
    none, .hosted ?_ rfl ?_⟩
  · exact
      { settled := by simp
        targetComputer := fun h => absurd h Bool.false_ne_true
        targetRuntime := fun h => absurd h Bool.false_ne_true
        provider := fun h => absurd h notProvider
        healthy := by simp
        runtimeUp := by simp [Registered.runtime, hostedFleet]
        allowedRuntimes := fun _ h => absurd h (by simp [ScheduleInput.asks, ScheduleInput.request, pinning])
        compatible := fun _ h => absurd h (by simp [ScheduleInput.asks, ScheduleInput.request, localModel]) }
  · exact
      { registered := rfl
        notLocalOnly := notLocal
        policy := by
          rw [hostedPolicy_set true rfl]
          rfl
        os := rfl
        architecture := rfl
        cuda := rfl
        gpu := rfl
        allowedComputers := rfl }

end

/-! The policy is kept exactly where its mode stands. -/

section

variable {preferences : Option ModelPreferenceService} {mode : Option ExecutionMode}

/-- What a task without a mode of its own is routed by. -/
theorem pinning_mode :
    ((pinning mode).constraint (policyDeps cfg preferences)).mode =
      (ModeChoice.resolve (some cfg) (preferences.map (·.getEffectivePreference))
        (pinning mode).task).mode ∧
    ((pinning mode).constraint (policyDeps cfg preferences)).intelligentMode =
      (ModeChoice.resolve (some cfg) (preferences.map (·.getEffectivePreference))
        (pinning mode).task).intelligentMode := ⟨rfl, rfl⟩

theorem ofPolicy_not_loadedOnly : (ModeChoice.ofPolicy (some cfg)).intelligentMode ≠ .loadedOnly := by
  unfold ModeChoice.ofPolicy
  dsimp only
  cases cfg.mode <;> simp

theorem pinning_not_loadedOnly :
    ((pinning mode).constraint (policyDeps cfg preferences)).intelligentMode ≠ .loadedOnly := by
  rw [pinning_mode.2, resolve_unnamed rfl]
  cases mode with
  | some m => cases m <;> simp [pinning, ModeChoice.ofExecutionMode]
  | none =>
    cases preferences with
    | none => exact ofPolicy_not_loadedOnly
    | some s =>
      simp only [pinning, Option.map_some, ModeChoice.ofPreference]
      split <;> try simp
      split <;> simp

theorem lifted_provider (policy : cfg.mode = .providerOnly) (lifted : ¬ ModeStands cfg preferences mode) :
    ((pinning mode).constraint (policyDeps cfg preferences)).mode ≠ .providerOnly := by
  rw [pinning_mode.1, resolve_unnamed rfl]
  simp only [ModeStands, policy, not_and] at lifted
  cases mode with
  | some m => cases m <;> simp [pinning, ModeChoice.ofExecutionMode]
  | none =>
    cases preferences with
    | none => exact (lifted rfl rfl).elim
    | some s =>
      simp only [pinning, Option.map_some, ModeChoice.ofPreference]
      split <;> simp

theorem lifted_local (policy : cfg.mode = .localOnly) (lifted : ¬ ModeStands cfg preferences mode) :
    ((pinning mode).constraint (policyDeps cfg preferences)).mode ≠ .providerOnly ∧
      ((pinning mode).constraint (policyDeps cfg preferences)).mode ≠ .localOnly := by
  rw [pinning_mode.1, resolve_unnamed rfl]
  simp only [ModeStands, policy, not_or, not_and] at lifted
  cases mode with
  | some m =>
    cases m with
    | localMode => exact (lifted.1 rfl).elim
    | automatic => simp [pinning, ModeChoice.ofExecutionMode]
    | fastest => simp [pinning, ModeChoice.ofExecutionMode]
    | highestQuality => simp [pinning, ModeChoice.ofExecutionMode]
  | none =>
    cases preferences with
    | none => exact (lifted.2 rfl fun _ hs => (Option.some_ne_none _ hs.symm).elim).elim
    | some s =>
      have other : s.getEffectivePreference.mode ≠ .localMode :=
        fun h => lifted.2 rfl fun _ hs => Option.some.inj hs ▸ h
      simp only [pinning, Option.map_some, ModeChoice.ofPreference]
      split
      case h_4 h => exact (other h).elim
      all_goals simp

/-- Some provider is not the one of the policy. -/
theorem exists_other (p : String) : ∃ x : String, x.toLower = x ∧ x ≠ p := by
  by_cases h : "ollama" = p
  · exact ⟨"vllm", by decide +kernel, h ▸ by decide⟩
  · exact ⟨"ollama", by decide +kernel, h⟩

end

/-- The engine's routing policy binds every decision of tasks without a mode of their own exactly if
neither their execution mode nor a preference is put in its place. -/
theorem routing_policy_kept (cfg : RoutingPolicyConfig) (preferences : Option ModelPreferenceService)
    (mode : Option ExecutionMode) :
    (∀ (deps : SchedulerDeps) (fleet : Fleet) (input : ScheduleInput) (d : SchedulerDecision),
      deps.routing = some cfg → deps.preferences = preferences →
      input.task.execution.executionMode = mode → truthy input.task.rawMode = false →
      plan deps fleet.toRegistered input = .ok d → KeepsPolicy cfg fleet.toRegistered d) ↔
    ModeStands cfg preferences mode := by
  constructor
  · intro kept
    by_contra lifted
    cases policy : cfg.mode with
    | auto => simp [ModeStands, policy] at lifted
    | hybrid => simp [ModeStands, policy] at lifted
    | providerOnly =>
      obtain ⟨x, lower, other⟩ := exists_other cfg.only.toLower
      obtain ⟨d, planned⟩ := plan_pinning List.mem_cons_self rfl
        (local_eligible x (lifted_provider policy lifted) pinning_not_loadedOnly)
      have keeps := kept _ _ _ d rfl rfl rfl rfl planned
      simp only [KeepsPolicy, policy] at keeps
      obtain ⟨⟨m, hm, -, ofProvider⟩, -⟩ := keeps
      rw [List.mem_singleton.mp hm] at ofProvider
      simp only [isModelOfProvider, localModel, lower, other, decide_false, Option.any_none,
        Bool.or_false] at ofProvider
      cases ofProvider
    | localOnly =>
      obtain ⟨notProvider, notLocal⟩ := lifted_local policy lifted
      obtain ⟨d, planned⟩ := plan_pinning List.mem_cons_self rfl
        (hosted_eligible notProvider notLocal pinning_not_loadedOnly)
      have keeps := kept _ _ _ d rfl rfl rfl rfl planned
      simp only [KeepsPolicy, policy] at keeps
      obtain ⟨⟨m, hm, -, isLocal⟩, -⟩ := keeps
      rw [List.mem_singleton.mp hm] at isLocal
      cases isLocal
  · rintro stands deps fleet input d routing rfl executionMode own planned
    exact policy_kept routing executionMode own stands planned

def onlyNvidia : RoutingPolicyConfig := { mode := .providerOnly, provider := some "nvidia" }

theorem routing_policy_kept_local :
    (∃ d, plan (policyDeps { mode := .localOnly } none) (localFleet "ollama").toRegistered
        (pinning none) = .ok d ∧
      KeepsPolicy { mode := .localOnly } (localFleet "ollama").toRegistered d) ∧
    ∃ d, plan (policyDeps onlyNvidia none) (localFleet "nvidia").toRegistered { task := {} } = .ok d ∧
      d.runtimeId = "nvidia" ∧ KeepsPolicy onlyNvidia (localFleet "nvidia").toRegistered d := by
  constructor
  · obtain ⟨d, planned⟩ := @plan_pinning { mode := .localOnly } none none (localFleet "ollama") _
      List.mem_cons_self rfl (local_eligible "ollama" nofun pinning_not_loadedOnly)
    exact ⟨d, planned, (routing_policy_kept { mode := .localOnly } none none).mpr
      (.inr ⟨rfl, fun _ hs => (Option.some_ne_none _ hs.symm).elim⟩) _ _ _ d rfl rfl rfl rfl planned⟩
  · have runtime : (plan (policyDeps onlyNvidia none) (localFleet "nvidia").toRegistered
        { task := {} }).toOption.map (·.runtimeId) = some "nvidia" := by decide +kernel
    obtain ⟨d, found, runs⟩ := Option.map_eq_some_iff.mp runtime
    have planned : plan (policyDeps onlyNvidia none) (localFleet "nvidia").toRegistered
        { task := {} } = .ok d := by
      cases h : plan (policyDeps onlyNvidia none) (localFleet "nvidia").toRegistered
          { task := {} } with
      | error e => simp [h, Except.toOption] at found
      | ok d' => simpa [h, Except.toOption] using found
    exact ⟨d, planned, runs, (routing_policy_kept onlyNvidia none none).mpr ⟨rfl, rfl⟩ _ _ _ d rfl rfl
      rfl rfl planned⟩

/-- With a preference service, `auto` takes the place of the policy's mode; so does an execution mode. -/
theorem policy_lifted :
    (∃ d, (plan (policyDeps onlyNvidia (some {})) (localFleet "ollama").toRegistered
        { task := {} }).toOption = some d ∧
      ¬ KeepsPolicy onlyNvidia (localFleet "ollama").toRegistered d) ∧
    ∃ d, (plan (policyDeps { mode := .localOnly } none) hostedFleet.toRegistered
        (pinning (some .fastest))).toOption = some d ∧
      ¬ KeepsPolicy { mode := .localOnly } hostedFleet.toRegistered d := by
  constructor
  · refine ⟨⟨none, "llama", "a", .readyNow, "ollama", some "laptop", .localMachine, .localGpuInference⟩,
      by decide, ?_⟩
    rintro ⟨-, runtime | ⟨r, hr, type⟩⟩
    · exact absurd runtime (by decide +kernel)
    · cases Option.some.inj ((localFleet_runtime "ollama").symm.trans hr)
      exact absurd type (by decide +kernel)
  · exact ⟨⟨none, "llama", "a", .loadable, "nvidia", none, .hosted, .hostedApiInference⟩,
      by decide, fun keeps => keeps.2 rfl⟩

end Wazir.Scheduling
