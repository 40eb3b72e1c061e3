import Wazir.Scheduling.AnyOrder

/-! The scheduler places eligible models only, finds a plan whenever an unpinned model is eligible, and
does not look at the order of registration. -/

namespace Wazir.Scheduling

variable {deps : SchedulerDeps} {fleet : Fleet} {input : ScheduleInput}

/-- The only instance of the model on the runtime and the computer of the placement. -/
def Alone (fleet : Registered) (d : SchedulerDecision) (i : ModelInstance) : Prop :=
  ∀ j ∈ fleet.instances, j.modelId = d.modelId → j.runtimeId = d.runtimeId →
    j.computerId = d.computerId → j = i

theorem Planned.named_self {fleet : Registered} {d : SchedulerDecision} {record : ModelRecord}
    {i : ModelInstance} {place : Option Computer}
    (h : Planned deps fleet input d record i place) (there : place.isSome ∨ i.computerId = none)
    (alone : Alone fleet d i) : d.modelInstanceId = i.id := by
  obtain ⟨j, hj, named, model, same⟩ := h.named
  obtain ⟨runtime, computer⟩ := same there
  rw [← named, alone j hj model runtime computer]

/-- Why there may be no plan though a model is eligible: no agent, an external one where the provider is
fixed, or the default model was tried and there is no fallback. -/
def TurnedAway (deps : SchedulerDeps) (input : ScheduleInput) : Prop :=
  (∃ e, resolveAgent deps input.task (input.constraint deps) = .error e) ∨
    FallbackOff (input.constraint deps) input.excludeModelIds

theorem noneEligible_of_error {e : SchedulingError} (router : deps.router = none)
    (unpinned : input.isPinned deps = false)
    (failed : plan deps fleet.toRegistered input = .error e) :
    TurnedAway deps input ∨ ∀ record ∈ fleet.models,
      ¬ Eligible deps fleet.toRegistered (input.asks deps record) input.excludeModelIds := by
  refine or_iff_not_imp_left.mpr fun stays record registered eligible => ?_
  obtain ⟨agentId, agent⟩ : ∃ a, resolveAgent deps input.task (input.constraint deps) = .ok a := by
    cases agent : resolveAgent deps input.task (input.constraint deps) with
    | ok a => exact ⟨a, rfl⟩
    | error e => exact (stays (.inl ⟨e, agent⟩)).elim
  obtain ⟨d, planned⟩ := plan_some router agent registered eligible
    (fun pinned => by rw [unpinned] at pinned; cases pinned)
    (fun _ off => stays (.inr off))
  rw [failed] at planned
  cases planned

/-- Soundness, completeness and independence of the order of registration. -/
theorem plan_sound (deps : SchedulerDeps) (fleet : Fleet) (input : ScheduleInput) :
    (∀ d, plan deps fleet.toRegistered input = .ok d → ∃ record i place,
      Planned deps fleet.toRegistered input d record i place ∧
        (place.isSome ∨ i.computerId = none → Alone fleet.toRegistered d i →
          d.modelInstanceId = i.id)) ∧
    (deps.router = none → input.isPinned deps = false →
      ∀ e, plan deps fleet.toRegistered input = .error e →
        TurnedAway deps input ∨ ∀ record ∈ fleet.models,
          ¬ Eligible deps fleet.toRegistered (input.asks deps record) input.excludeModelIds) ∧
    (Std.TransCmp deps.localeCompare → Separates deps.localeCompare (fleet.models.map (·.id)) →
      Separates deps.localeCompare (fleet.instances.map (·.id)) →
      ∀ g, Reordered fleet.toRegistered g →
        plan deps g input = plan deps fleet.toRegistered input) := by
  refine ⟨fun d planned => ?_, fun router unpinned e failed => ?_, fun _ models instances g same => ?_⟩
  · obtain ⟨record, i, place, h⟩ := plan_planned planned
    exact ⟨record, i, place, h, h.named_self⟩
  · exact noneEligible_of_error router unpinned failed
  · exact ((same.agree models instances).plan_eq input).symm

/-! On small fleets. -/

/-- A scheduler with nothing but its registries. -/
def plainDeps : SchedulerDeps where
  localeCompare := compareOn String.length
  assessDevice := fun _ _ _ _ => ⟨[], none, false⟩
  planContext := fun _ _ _ _ _ => none
  costTier := fun _ => .t1
  estimateMemoryGB := fun _ => 8
  evidence := fun _ _ _ _ => 0

def laptop : Computer where
  id := "laptop"
  isLocal := true
  platform := "darwin"
  architecture := "arm64"
  memoryGB := 32

def localModel (id : String) : ModelRecord where
  id := id
  provider := "meta"
  contextMax := 8192
  isLocal := true

def ollama : RuntimeRecord where
  id := "ollama"
  type := "ollama"

def onLaptop (id modelId : String) (state : ModelLifecycleState) : ModelInstance where
  id := id
  modelId := modelId
  computerId := some "laptop"
  runtimeId := "ollama"
  loaded := true
  state := some state

/-- Two models of which each has an instance that is ready. -/
def readyFleet : Fleet where
  models := [localModel "llama", localModel "mixtral"]
  instances := [onLaptop "a" "llama" .ready, onLaptop "bb" "mixtral" .ready]
  runtimes := [ollama]
  computers := [laptop]
  modelIds := by decide
  instanceIds := by decide
  runtimeIds := by decide
  computerIds := by decide

theorem planned_of_isSome {x : Except SchedulingError SchedulerDecision}
    (h : x.toOption.isSome) : ∃ d, x = .ok d := by
  cases x with
  | error e => cases h
  | ok d => exact ⟨d, rfl⟩

theorem plan_sound_ready :
    (∃ d record i place, (plan plainDeps readyFleet.toRegistered { task := {} }).toOption = some d ∧
      Planned plainDeps readyFleet.toRegistered { task := {} } d record i place) ∧
    (∀ record ∈ readyFleet.models, ¬ Eligible plainDeps readyFleet.toRegistered
      ({ task := { requirements := { vision := true } } : ScheduleInput }.asks plainDeps record) []) ∧
    plan plainDeps { readyFleet.toRegistered with models := readyFleet.models.reverse }
      { task := {} } = plan plainDeps readyFleet.toRegistered { task := {} } := by
  obtain ⟨d, planned⟩ := planned_of_isSome
    (show (plan plainDeps readyFleet.toRegistered { task := {} }).toOption.isSome from by
      decide +kernel)
  have failed : (plan plainDeps readyFleet.toRegistered
      { task := { requirements := { vision := true } } }).toOption = none := by decide
  obtain ⟨sound, -, anyOrder⟩ := plan_sound plainDeps readyFleet { task := {} }
  obtain ⟨-, complete, -⟩ := plan_sound plainDeps readyFleet
    { task := { requirements := { vision := true } } }
  refine ⟨?_, ?_, anyOrder (inferInstanceAs (Std.TransCmp (compareOn String.length)))
    (by decide) (by decide) _ ⟨(List.reverse_perm _).symm, .refl _, .refl _, .refl _⟩⟩
  · obtain ⟨record, i, place, h, -⟩ := sound d planned
    exact ⟨d, record, i, place, congrArg Except.toOption planned, h⟩
  · cases hd : plan plainDeps readyFleet.toRegistered
        { task := { requirements := { vision := true } } } with
    | ok d =>
      rw [hd] at failed
      cases failed
    | error e =>
      refine (complete rfl (by decide) e hd).resolve_left fun away => ?_
      obtain ⟨e, failed⟩ | ⟨-, m, default, -⟩ := away
      · cases failed
      · cases default

/-- One instance of the model is drained, another one is ready beside it. -/
def drainedFleet : Fleet where
  models := [localModel "llama"]
  instances := [onLaptop "a" "llama" .draining, onLaptop "bb" "llama" .ready]
  runtimes := [ollama]
  computers := [laptop]
  modelIds := by decide
  instanceIds := by decide
  runtimeIds := by decide
  computerIds := by decide

/-- The default model was tried, and there is no fallback. -/
def noFallback : SchedulerDeps :=
  { plainDeps with
    routing := some { mode := .auto, defaultModel := some "llama", allowFallback := some false } }

def triedLlama : ScheduleInput := { task := {}, excludeModelIds := ["llama"] }

/-- The draining instance is named, and a plan without a pin fails though a model is eligible. -/
theorem drained_named :
    (∃ d, (plan plainDeps drainedFleet.toRegistered { task := {} }).toOption = some d ∧
      ∃ i ∈ drainedFleet.instances, i.id = d.modelInstanceId ∧ i.state = some .draining) ∧
    (plan noFallback readyFleet.toRegistered triedLlama).toOption = none ∧
    triedLlama.isPinned noFallback = false ∧
    Eligible noFallback readyFleet.toRegistered (triedLlama.asks noFallback (localModel "mixtral"))
      triedLlama.excludeModelIds := by
  refine ⟨?_, by decide, by decide,
    (@assessModel_eligible _ _ _ _ _ none _).mp (by decide)⟩
  refine ⟨⟨none, "llama", "a", .loadable, "ollama", some "laptop", .localMachine, .localGpuInference⟩,
    by decide, onLaptop "a" "llama" .draining, ?_, rfl, rfl⟩
  exact List.mem_cons_self

end Wazir.Scheduling
