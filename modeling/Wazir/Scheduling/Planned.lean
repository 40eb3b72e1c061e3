import Wazir.Scheduling.Eligibility
import Wazir.Shared.KeyedLists
import Wazir.Shared.Values

/-! What both phases come to: a plan names an eligible model and one of its placements, and there is a
plan whenever a model is eligible. -/

namespace Wazir.Scheduling

variable {deps : SchedulerDeps} {fleet : Registered} {input : ScheduleInput} {requiredContext : ℕ}
  {routing : ResolvedRoutingConstraint} {harness : Option String}

/-! The instance of phase 1. -/

theorem selectInstance_known {record : ModelRecord} {i : ModelInstance}
    (h : selectInstance deps fleet record = .ok i) :
    i ∈ fleet.instances ∧ i.modelId = record.id := by
  unfold selectInstance at h
  dsimp only at h
  split at h
  next found =>
    cases h
    have known : i ∈ (fleet.instancesOf deps.localeCompare record.id).filter
        (·.state ∉ [some .draining, some .unloading]) := by
      rcases Option.or_eq_some_iff.mp found with h | ⟨-, h⟩
      · rcases Option.or_eq_some_iff.mp h with h | ⟨-, h⟩
        · exact List.mem_of_find?_eq_some h
        · exact List.mem_of_find?_eq_some h
      · exact List.mem_of_mem_head? h
    exact Registered.mem_instancesOf.mp (List.mem_of_mem_filter known)
  · cases h

variable {q : PlacementRequest}

theorem selectInstance_some (h : Hostable deps fleet q) :
    ∃ i, selectInstance deps fleet q.record = .ok i := by
  obtain ⟨i, hi, hm, place, placed⟩ := h
  have fits : InstanceFits fleet q i := by
    cases placed <;> assumption
  have known : i ∈ (fleet.instancesOf deps.localeCompare q.record.id).filter
      (·.state ∉ [some .draining, some .unloading]) := by
    refine List.mem_filter.mpr ⟨Registered.mem_instancesOf.mpr ⟨hi, hm⟩, ?_⟩
    simp [fits.settled.1, fits.settled.2.1]
  unfold selectInstance
  dsimp only
  split
  next j _ => exact ⟨j, rfl⟩
  next none =>
    rw [Option.or_eq_none_iff, List.head?_eq_none_iff] at none
    rw [none.2] at known
    cases known

/-! The router only rejects. -/

variable {scored : List ScoredModel} {s : ScoredModel}

theorem applyAssessment_eligible {a : RouterAssessment} (hs : s ∈ applyAssessment routing scored a)
    (eligible : s.rejected = []) :
    ∃ s' ∈ scored, s'.record = s.record ∧ s'.rejected = [] := by
  obtain ⟨s', hs', rfl⟩ := List.mem_map.mp hs
  refine ⟨s', hs', ?_⟩
  revert eligible
  dsimp only
  split_ifs <;> simp

theorem applyAssessments_eligible {all : List RouterAssessment}
    (hs : s ∈ all.foldl (applyAssessment routing) scored) (eligible : s.rejected = []) :
    ∃ s' ∈ scored, s'.record = s.record ∧ s'.rejected = [] := by
  induction all generalizing scored with
  | nil => exact ⟨s, hs, rfl, eligible⟩
  | cons a rest ih =>
    obtain ⟨s', hs', record, eligible'⟩ := ih hs
    obtain ⟨s'', hs'', record', eligible''⟩ := applyAssessment_eligible hs' eligible'
    exact ⟨s'', hs'', record'.trans record, eligible''⟩

theorem applyRouter_eligible {task : Task} {scored scored' : List ScoredModel}
    (h : applyRouter deps fleet task requiredContext routing harness scored = .ok scored')
    (hs : s ∈ scored') (eligible : s.rejected = []) :
    ∃ s' ∈ scored, s'.record = s.record ∧ s'.rejected = [] := by
  unfold applyRouter at h
  split at h
  · cases h
    exact ⟨s, hs, rfl, eligible⟩
  · dsimp only at h
    split_ifs at h
    cases h
    exact applyAssessments_eligible hs eligible

/-! Phase 1. -/

/-- What phase 1 decides: an eligible model, the pinned one if there is a pin, and an instance of it. -/
structure Routed (deps : SchedulerDeps) (fleet : Registered) (input : ScheduleInput)
    (requiredContext : ℕ) (routing : ResolvedRoutingConstraint) (record : ModelRecord)
    (d : ModelRoutingDecision) : Prop where
  registered : record ∈ fleet.models
  named : d.modelId = record.id
  eligible : Eligible deps fleet (input.request requiredContext routing record) input.excludeModelIds
  pinned : routing.isStrictMode ∨ truthy (routing.targetModelId.or input.task.execution.targetModelId) →
    routing.targetModelId.or input.task.execution.targetModelId = some record.id
  inst : ∃ i ∈ fleet.instances, i.modelId = record.id ∧ i.id = d.modelInstanceId

variable {d : ModelRoutingDecision}

theorem decideModel_ok (h : decideModel deps fleet s = .ok d) :
    d.modelId = s.record.id ∧
      ∃ i ∈ fleet.instances, i.modelId = s.record.id ∧ i.id = d.modelInstanceId := by
  unfold decideModel at h
  cases hi : selectInstance deps fleet s.record with
  | error e =>
    rw [hi] at h
    cases h
  | ok i =>
    rw [hi] at h
    cases h
    obtain ⟨known, model⟩ := selectInstance_known hi
    exact ⟨rfl, i, known, model, rfl⟩

theorem routePinned_ok {target : Option String} (h : routePinned deps fleet target scored = .ok d) :
    ∃ s ∈ scored, s.rejected = [] ∧ target = some s.record.id ∧ decideModel deps fleet s = .ok d := by
  unfold routePinned at h
  split_ifs at h with none
  dsimp only at h
  split at h
  next s found =>
    have hs := List.mem_filter.mp (List.mem_of_find?_eq_some found)
    have named := List.find?_some found
    refine ⟨s, hs.1, of_decide_eq_true hs.2, ?_, h⟩
    cases target with
    | none => simp [truthy] at none
    | some t => rw [of_decide_eq_true named, Option.getD_some]
  · split at h
    · split_ifs at h
    · cases h

theorem routeBest_ok (h : routeBest deps fleet scored = .ok d) :
    ∃ s ∈ scored, s.rejected = [] ∧ decideModel deps fleet s = .ok d := by
  unfold routeBest at h
  split at h
  next best rest sorted =>
    have hs : best ∈ sortBy (modelOrder deps) (scored.filter (·.rejected = [])) :=
      sorted ▸ List.mem_cons_self
    have hs' := List.mem_filter.mp (mem_sortBy.mp hs)
    exact ⟨best, hs'.1, of_decide_eq_true hs'.2, h⟩
  · split at h
    · cases h
    · cases h

theorem scored_eligible (h : applyRouter deps fleet input.task requiredContext routing harness
      ((fleet.listModels deps.localeCompare).map
        (assessModel deps fleet input requiredContext routing harness)) = .ok scored)
    (hs : s ∈ scored) (eligible : s.rejected = []) :
    s.record ∈ fleet.models ∧
      Eligible deps fleet (input.request requiredContext routing s.record) input.excludeModelIds := by
  obtain ⟨s', hs', record, eligible'⟩ := applyRouter_eligible h hs eligible
  obtain ⟨m, hm, rfl⟩ := List.mem_map.mp hs'
  rw [assessModel_record] at record
  subst record
  exact ⟨mem_sortBy.mp hm, assessModel_eligible.mp eligible'⟩

theorem routeModel_ok (h : routeModel deps fleet input requiredContext routing harness = .ok d) :
    ∃ record, Routed deps fleet input requiredContext routing record d := by
  have routed {s : ScoredModel} {scored : List ScoredModel}
      (hscored : applyRouter deps fleet input.task requiredContext routing harness
        ((fleet.listModels deps.localeCompare).map
          (assessModel deps fleet input requiredContext routing harness)) = .ok scored)
      (hs : s ∈ scored) (eligible : s.rejected = [])
      (decided : decideModel deps fleet s = .ok d)
      (pinned : routing.isStrictMode ∨
        truthy (routing.targetModelId.or input.task.execution.targetModelId) →
        routing.targetModelId.or input.task.execution.targetModelId = some s.record.id) :
      ∃ record, Routed deps fleet input requiredContext routing record d := by
    obtain ⟨registered, fits⟩ := scored_eligible hscored hs eligible
    obtain ⟨named, inst⟩ := decideModel_ok decided
    exact ⟨s.record, registered, named, fits, pinned, inst⟩
  unfold routeModel at h
  split at h
  · cases h
  obtain ⟨scored, hscored, h⟩ := except_bind_eq_ok.mp h
  dsimp only at h
  split at h
  next =>
    obtain ⟨s, hs, eligible, pinned, decided⟩ := routePinned_ok h
    exact routed hscored hs eligible decided fun _ => pinned
  next unpinned _ _ =>
    have free (pin : routing.isStrictMode = true ∨
        truthy (routing.targetModelId.or input.task.execution.targetModelId) = true) : False := by
      rw [← Bool.or_eq_true, unpinned] at pin
      cases pin
    split_ifs at h
    obtain ⟨s, hs, eligible, decided⟩ := routeBest_ok h
    exact routed hscored hs eligible decided fun pin => (free pin).elim
  next unpinned _ =>
    obtain ⟨s, hs, eligible, decided⟩ := routeBest_ok h
    refine routed hscored hs eligible decided fun pin => ?_
    rw [← Bool.or_eq_true, unpinned] at pin
    cases pin

/-! Both phases. -/

section

variable (deps : SchedulerDeps) (input : ScheduleInput)

def ScheduleInput.constraint : ResolvedRoutingConstraint :=
  resolveRoutingConstraint deps.routing deps.preferences input.task

/-- The model that the task, or a strict preference, asks for. -/
def ScheduleInput.pin : Option String :=
  (input.constraint deps).targetModelId.or input.task.execution.targetModelId

def ScheduleInput.isPinned : Bool := (input.constraint deps).isStrictMode || truthy (input.pin deps)

/-- What the task asks of a model, as phase 2 looks at it. -/
def ScheduleInput.asks (record : ModelRecord) : PlacementRequest :=
  input.request input.requiredContext (input.constraint deps) record

end

/-- The decision places an instance of an eligible model. -/
structure Planned (deps : SchedulerDeps) (fleet : Registered) (input : ScheduleInput)
    (d : SchedulerDecision) (record : ModelRecord) (i : ModelInstance) (place : Option Computer) :
    Prop where
  registered : record ∈ fleet.models
  model : d.modelId = record.id
  known : i ∈ fleet.instances ∧ i.modelId = record.id
  runtime : d.runtimeId = i.runtimeId
  computer : d.computerId = place.map (·.id)
  kind : d.placementKind = .hosted ↔ place = none
  fits : ModelFits deps fleet (input.asks deps record) input.excludeModelIds
  placed : Placeable deps fleet (input.asks deps record) i place
  pinned : input.isPinned deps → input.pin deps = some record.id
  /-- The instance that is named is on the runtime and the computer of the placement. -/
  named : ∃ j ∈ fleet.instances, j.id = d.modelInstanceId ∧ j.modelId = d.modelId ∧
    (place.isSome ∨ i.computerId = none → j.runtimeId = d.runtimeId ∧ j.computerId = d.computerId)

theorem model_eq_some {fleet : Fleet} {record : ModelRecord} (h : record ∈ fleet.models) :
    fleet.model record.id = some record :=
  (find_key_eq_some fleet.modelIds).mpr ⟨h, rfl⟩

theorem computer_id {id : String} {c : Computer} (h : fleet.computer id = some c) : c.id = id := by
  unfold Registered.computer at h
  simpa using List.find?_some h

theorem Placeable.computerId {i : ModelInstance} {c : Computer}
    (h : Placeable deps fleet q i (some c)) : i.computerId = some c.id := by
  cases h with
  | onComputer _ _ found _ =>
    obtain ⟨id, hid, hc⟩ := Option.bind_eq_some_iff.mp found
    rw [hid, computer_id hc]

theorem scheduleComputer_placed {best : ScoredPlacement}
    (h : scheduleComputer deps fleet q = some best) :
    (best.inst ∈ fleet.instances ∧ best.inst.modelId = q.record.id) ∧
      Placeable deps fleet q best.inst best.computer := by
  obtain ⟨i, hi, hm, ok⟩ := mem_assessPlacements.mp (mem_sortBy.mp (List.mem_of_mem_head? h))
  obtain ⟨rfl, placed⟩ := assessPlacement_placeable ok
  exact ⟨⟨hi, hm⟩, placed⟩

/-- The instance is looked up again by its runtime and computer. -/
theorem placedInstance_named {instances : List ModelInstance} {best : ScoredPlacement}
    {selected : ModelInstance} (hs : selected ∈ instances) (hb : best.inst ∈ instances) :
    placedInstance instances best selected ∈ instances ∧
      (best.inst.computerId = best.computer.map (·.id) →
        (placedInstance instances best selected).runtimeId = best.inst.runtimeId ∧
          (placedInstance instances best selected).computerId = best.computer.map (·.id)) := by
  unfold placedInstance
  cases found : instances.find? fun i =>
      i.runtimeId = best.inst.runtimeId && i.computerId = best.computer.map (·.id) with
  | some j =>
    have same := List.find?_some found
    rw [Bool.and_eq_true, decide_eq_true_eq, decide_eq_true_eq] at same
    exact ⟨List.mem_of_find?_eq_some found, fun _ => same⟩
  | none =>
    refine ⟨hs, fun there => ?_⟩
    have := List.find?_eq_none.mp found best.inst hb
    simp [there] at this

theorem plan_planned {fleet : Fleet} {d : SchedulerDecision}
    (h : plan deps fleet.toRegistered input = .ok d) :
    ∃ record i place, Planned deps fleet.toRegistered input d record i place := by
  unfold plan at h
  dsimp only at h
  obtain ⟨agentId, -, h⟩ := except_bind_eq_ok.mp h
  obtain ⟨chosen, routed, h⟩ := except_bind_eq_ok.mp h
  obtain ⟨record, r⟩ := routeModel_ok routed
  rw [r.named, model_eq_some r.registered] at h
  dsimp only at h
  split at h
  · cases h
  next selected found =>
  split at h
  · cases h
  next best scheduled =>
  cases h
  obtain ⟨known, placed⟩ := scheduleComputer_placed scheduled
  obtain ⟨named, there⟩ := @placedInstance_named _ best _ (List.mem_of_find?_eq_some found)
    (Registered.mem_instancesOf.mpr known)
  obtain ⟨hj, hm⟩ := Registered.mem_instancesOf.mp named
  refine ⟨record, best.inst, best.computer, r.registered, rfl, known, rfl, rfl, ?_, r.eligible.1,
    placed, fun pinned => r.pinned (Bool.or_eq_true _ _ |>.mp pinned), _, hj, rfl, hm, fun place =>
      there ?_⟩
  · simp only [toDecision]
    cases best.computer <;> simp
  · cases hc : best.computer with
    | some c => exact (hc ▸ placed).computerId
    | none => simpa [hc] using place

/-! A plan is found. -/

theorem decideModel_some (same : s.record = q.record) (h : Hostable deps fleet q) :
    ∃ d, decideModel deps fleet s = .ok d := by
  obtain ⟨i, hi⟩ := selectInstance_some h
  exact ⟨⟨s.record.id, i.id, s.score⟩, by simp [decideModel, same, hi, bind, Except.bind, pure, Except.pure]⟩

/-- Every model that is left can be decided for. -/
def EveryDecides (deps : SchedulerDeps) (fleet : Registered) (scored : List ScoredModel) : Prop :=
  ∀ s ∈ scored, s.rejected = [] → ∃ d, decideModel deps fleet s = .ok d

theorem routePinned_some (every : EveryDecides deps fleet scored) (hs : s ∈ scored)
    (eligible : s.rejected = []) (named : s.record.id ≠ "") :
    ∃ d, routePinned deps fleet (some s.record.id) scored = .ok d := by
  have found : ((scored.filter (·.rejected = [])).find? (·.record.id = s.record.id)).isSome :=
    List.find?_isSome.mpr ⟨s, List.mem_filter.mpr ⟨hs, decide_eq_true eligible⟩, decide_eq_true rfl⟩
  obtain ⟨t, ht⟩ := Option.isSome_iff_exists.mp found
  have hs' := List.mem_filter.mp (List.mem_of_find?_eq_some ht)
  obtain ⟨d, hd⟩ := every t hs'.1 (of_decide_eq_true hs'.2)
  exact ⟨d, by simp [routePinned, truthy, named, ht, hd]⟩

theorem routeBest_some (every : EveryDecides deps fleet scored) (hs : s ∈ scored)
    (eligible : s.rejected = []) :
    ∃ d, routeBest deps fleet scored = .ok d := by
  have hmem : s ∈ sortBy (modelOrder deps) (scored.filter (·.rejected = [])) :=
    mem_sortBy.mpr (List.mem_filter.mpr ⟨hs, decide_eq_true eligible⟩)
  unfold routeBest
  split
  next best rest sorted =>
    have hbest : best ∈ sortBy (modelOrder deps) (scored.filter (·.rejected = [])) :=
      sorted ▸ List.mem_cons_self
    have hbest' := List.mem_filter.mp (mem_sortBy.mp hbest)
    exact every best hbest'.1 (of_decide_eq_true hbest'.2)
  next none =>
    rw [none] at hmem
    cases hmem

/-- Fallback is off and the default model was tried already. -/
def FallbackOff (routing : ResolvedRoutingConstraint) (excluded : List String) : Prop :=
  routing.allowFallback = false ∧ ∃ m, routing.defaultModel = some m ∧ m ≠ "" ∧ m ∈ excluded

theorem routeModel_some {record : ModelRecord} (router : deps.router = none)
    (registered : record ∈ fleet.models)
    (eligible : Eligible deps fleet (input.request requiredContext routing record)
      input.excludeModelIds)
    (pin : (routing.isStrictMode || truthy (routing.targetModelId.or input.task.execution.targetModelId))
      = true → routing.targetModelId.or input.task.execution.targetModelId = some record.id ∧
        record.id ≠ "")
    (free : (routing.isStrictMode || truthy (routing.targetModelId.or
      input.task.execution.targetModelId)) = false → ¬ FallbackOff routing input.excludeModelIds) :
    ∃ d, routeModel deps fleet input requiredContext routing harness = .ok d := by
  let assess := assessModel deps fleet input requiredContext routing harness
  have every : EveryDecides deps fleet ((fleet.listModels deps.localeCompare).map assess) := by
    intro s hs free
    obtain ⟨m, -, rfl⟩ := List.mem_map.mp hs
    exact decideModel_some assessModel_record (assessModel_eligible.mp free).2
  have hs : assess record ∈ (fleet.listModels deps.localeCompare).map assess :=
    List.mem_map_of_mem (mem_sortBy.mpr registered)
  have rejected : (assess record).rejected = [] := assessModel_eligible.mpr eligible
  have hrecord : (assess record).record = record := assessModel_record
  unfold routeModel
  split
  next none =>
    rw [none] at hs
    cases hs
  simp only [applyRouter, router]
  dsimp only [bind, Except.bind]
  split
  next strict =>
    obtain ⟨target, named⟩ := pin strict
    rw [target, ← hrecord]
    exact routePinned_some every hs rejected (hrecord.symm ▸ named)
  next unpinned off default =>
    split_ifs with tried
    · exact absurd ⟨off, _, default, tried⟩ (free unpinned)
    · exact routeBest_some every hs rejected
  next => exact routeBest_some every hs rejected

/-- The whole plan, once phase 1 has decided. -/
theorem plan_of_routed {fleet : Fleet} {agentId : Option String} {chosen : ModelRoutingDecision}
    (agent : resolveAgent deps input.task (input.constraint deps) = .ok agentId)
    (routed : routeModel deps fleet.toRegistered input input.requiredContext (input.constraint deps)
      ((agentId.or input.task.execution.targetAgentId).or input.task.requirements.agent) = .ok chosen) :
    ∃ d, plan deps fleet.toRegistered input = .ok d := by
  obtain ⟨record, r⟩ := routeModel_ok routed
  obtain ⟨i, hi, model, named⟩ := r.inst
  obtain ⟨selected, found⟩ := Option.isSome_iff_exists.mp
    (List.find?_isSome.mpr ⟨i, Registered.mem_instancesOf.mpr ⟨hi, model⟩, decide_eq_true named⟩ :
      ((fleet.instancesOf deps.localeCompare record.id).find?
        (·.id = chosen.modelInstanceId)).isSome)
  obtain ⟨best, scheduled⟩ : ∃ best,
      scheduleComputer deps fleet.toRegistered (input.asks deps record) = some best := by
    obtain ⟨p, hp⟩ := List.exists_mem_of_ne_nil _ (assessPlacements_ne_nil.mpr r.eligible.2)
    rw [scheduleComputer, ← Option.isSome_iff_exists, List.isSome_head?]
    exact List.ne_nil_of_mem (mem_sortBy.mpr hp)
  simp only [ScheduleInput.asks, ScheduleInput.request, ScheduleInput.constraint] at *
  refine ⟨toDecision agentId record (placedInstance (fleet.instancesOf deps.localeCompare record.id)
    best selected) best, ?_⟩
  simp [plan, agent, routed, r.named, model_eq_some r.registered, found, scheduled]

/-- A model that is eligible, and pinned if there is a pin, gives a plan. -/
theorem plan_some {fleet : Fleet} {record : ModelRecord} {agentId : Option String}
    (router : deps.router = none)
    (agent : resolveAgent deps input.task (input.constraint deps) = .ok agentId)
    (registered : record ∈ fleet.models)
    (eligible : Eligible deps fleet.toRegistered (input.asks deps record) input.excludeModelIds)
    (pin : input.isPinned deps = true → input.pin deps = some record.id ∧ record.id ≠ "")
    (free : input.isPinned deps = false →
      ¬ FallbackOff (input.constraint deps) input.excludeModelIds) :
    ∃ d, plan deps fleet.toRegistered input = .ok d := by
  obtain ⟨chosen, routed⟩ := routeModel_some router registered eligible pin free
  exact plan_of_routed agent routed

end Wazir.Scheduling
