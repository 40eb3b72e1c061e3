import Wazir.Scheduling.Planned

/-! The registries are looked at by id and in the order of ids, so the order of registration does not
matter. -/

namespace Wazir.Scheduling

/-- Two ids that compare as equal are one. -/
def Separates (cmp : String → String → Ordering) (ids : List String) : Prop :=
  ∀ a ∈ ids, ∀ b ∈ ids, cmp a b = .eq → a = b

instance (cmp : String → String → Ordering) (ids : List String) : Decidable (Separates cmp ids) :=
  inferInstanceAs (Decidable (∀ a ∈ ids, ∀ b ∈ ids, cmp a b = .eq → a = b))

/-- The same registered in another order. -/
structure Reordered (f g : Registered) : Prop where
  models : f.models.Perm g.models
  instances : f.instances.Perm g.instances
  runtimes : f.runtimes.Perm g.runtimes
  computers : f.computers.Perm g.computers

/-- Nothing that the scheduler looks up differs. -/
structure Agree (cmp : String → String → Ordering) (f g : Registered) : Prop where
  model : ∀ id, f.model id = g.model id
  runtime : ∀ id, f.runtime id = g.runtime id
  computer : ∀ id, f.computer id = g.computer id
  online : ∀ p, f.computers.any p = g.computers.any p
  listModels : f.listModels cmp = g.listModels cmp
  instancesOf : ∀ id, f.instancesOf cmp id = g.instancesOf cmp id

theorem Reordered.agree {cmp : String → String → Ordering} [Std.TransCmp cmp] {f : Fleet}
    {g : Registered} (h : Reordered f.toRegistered g) (models : Separates cmp (f.models.map (·.id)))
    (instances : Separates cmp (f.instances.map (·.id))) : Agree cmp f.toRegistered g where
  model := find_key_perm h.models f.modelIds
  runtime := find_key_perm h.runtimes f.runtimeIds
  computer := find_key_perm h.computers f.computerIds
  online _ := h.computers.any_eq
  listModels := sortBy_key_perm h.models f.modelIds fun _ ha _ hb =>
    models _ (List.mem_map_of_mem ha) _ (List.mem_map_of_mem hb)
  instancesOf _ := sortBy_key_perm (h.instances.filter _)
    ((f.instanceIds).sublist (List.filter_sublist.map _)) fun _ ha _ hb =>
      instances _ (List.mem_map_of_mem (List.mem_of_mem_filter ha)) _
        (List.mem_map_of_mem (List.mem_of_mem_filter hb))

namespace Agree

variable {deps : SchedulerDeps} {f g : Registered} (h : Agree deps.localeCompare f g)
  (q : PlacementRequest)

include h

theorem assessPlacement_eq : assessPlacement deps f q = assessPlacement deps g q := by
  have computers : f.computer = g.computer := funext h.computer
  funext i
  simp only [assessPlacement, isHosted, h.runtime, computers]
  rfl

theorem assessPlacements_eq : assessPlacements deps f q = assessPlacements deps g q := by
  simp only [assessPlacements, h.instancesOf, h.assessPlacement_eq]

theorem placementFailures_eq : placementFailures deps f q = placementFailures deps g q := by
  simp only [placementFailures, h.instancesOf, h.assessPlacement_eq]

theorem scheduleComputer_eq : scheduleComputer deps f q = scheduleComputer deps g q := by
  simp only [scheduleComputer, h.assessPlacements_eq]

theorem scoreModel_eq (harness : Option String) :
    scoreModel deps f q harness = scoreModel deps g q harness := by
  have known : q.knownInstances deps f = q.knownInstances deps g := h.instancesOf _
  unfold scoreModel PlacementRequest.modelRejections PlacementRequest.modelScore
    PlacementRequest.modeScore PlacementRequest.residencyScore PlacementRequest.isLoaded
  rw [known]

theorem assessModel_eq (input : ScheduleInput) (requiredContext : ℕ)
    (routing : ResolvedRoutingConstraint) (harness : Option String) :
    assessModel deps f input requiredContext routing harness =
      assessModel deps g input requiredContext routing harness := by
  funext record
  simp only [assessModel, h.scoreModel_eq, h.assessPlacements_eq, h.placementFailures_eq]

theorem routerCandidate_eq (requiredContext : ℕ) (harness : Option String) :
    routerCandidate deps f requiredContext harness = routerCandidate deps g requiredContext harness := by
  have computers : f.computer = g.computer := funext h.computer
  have estimate : estimateInstance f = estimateInstance g := by
    funext record context i
    simp only [estimateInstance, isHosted, h.runtime, computers]
  funext s
  unfold routerCandidate preferredInstance residency estimatePlacement
  rw [h.instancesOf, estimate]

theorem decideModel_eq : decideModel deps f = decideModel deps g := by
  funext s
  simp only [decideModel, selectInstance, h.instancesOf, h.online]

theorem routeModel_eq (input : ScheduleInput) (requiredContext : ℕ)
    (routing : ResolvedRoutingConstraint) (harness : Option String) :
    routeModel deps f input requiredContext routing harness =
      routeModel deps g input requiredContext routing harness := by
  simp only [routeModel, routePinned, routeBest, applyRouter, h.listModels, h.assessModel_eq,
    h.routerCandidate_eq, h.decideModel_eq]

theorem plan_eq (input : ScheduleInput) : plan deps f input = plan deps g input := by
  simp only [plan, h.routeModel_eq, h.model, h.instancesOf, h.scheduleComputer_eq,
    h.placementFailures_eq]

end Agree

end Wazir.Scheduling
