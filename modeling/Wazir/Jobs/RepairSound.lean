import Wazir.Jobs.FailedFlush
import Wazir.Jobs.Repair

/-! When `addTasksToJob` keeps a job's graph sound: for every job that grew from a created one, and
every call. -/

namespace Wazir.Jobs

open Wazir.Core
open Rewiring (Acyclic Rewired Ready Advance)
open Relation

/-! Later states. -/

def JobGraph.outline (graph : JobGraph) : List (String × Option String × List String) :=
  graph.nodes.map fun n => (n.id, n.taskId, n.dependencies)

def Job.done (job : Job) : Set String := {a | ∃ n ∈ job.graph.nodes, n.id = a ∧ n.state = .completed}

def Job.known (job : Job) : Set String := {a | a ∈ job.graph.ids}

/-- Some nodes change. One is completed while its dependencies are, and stays so. -/
structure Progress (job job' : Job) : Prop where
  outline : job'.graph.outline = job.graph.outline
  kept : job.done ⊆ job'.done
  ready : ∀ a ∈ job'.done, a ∉ job.done → dependenciesSatisfied job a = true

namespace RepairCall

variable (call : RepairCall) (job : Job)

/-- What a call that returns has to leave: the ids of tasks and nodes are unique, the edges are the
dependencies, nothing waits for itself; no pending node lists the replaced task, and what depended on
it is not ready before all the new tasks are completed. -/
structure Repaired (after : Job) : Prop where
  tasks : (after.tasks.map Task.id).Nodup
  nodes : after.graph.ids.Nodup
  edges : after.graph.EdgesExact
  acyclic : Acyclic after.graph.DependsOn
  released : ∀ old ∈ call.replaces, old ∈ job.graph.ids →
    ∀ n ∈ after.graph.nodes, n.id ≠ old → n.state = .idle → old ∉ n.dependencies
  gated : ∀ old ∈ call.replaces, ∀ later, ReflTransGen Progress after later →
    ∀ d, job.graph.DependsOn d old → dependenciesSatisfied later d = true →
      ∀ v ∈ call.createdIds job, (later.node? v).any (·.state = .completed) = true

/-- What the plan has to be like. -/
structure Fits : Prop where
  fresh : (job.graph.ids ++ call.createdIds job).Nodup
  once : ∀ old ∈ call.replaced, ∀ n ∈ job.graph.nodes, n.dependencies.count old ≤ 1
  /-- The new tasks do not wait for each other in a circle. -/
  acyclic : Acyclic (call.Added job)
  /-- The last one does not lead back to what waits for it. -/
  forward : ∀ a b, ReflTransGen (call.Added job) (call.lastId job) a →
    ReflTransGen (call.Kept job) a b → b ∉ call.dependents job
  /-- Only the first new task lists the replaced one. -/
  released : ∀ old ∈ call.replaces, old ∈ job.graph.ids →
    (call.newTasks = [] → ∀ n ∈ job.graph.nodes, n.state = .idle → old ∉ n.dependencies) ∧
      ∀ t ∈ (call.created job).tail, old ∉ t.2
  /-- The last one leads to all of them, if anything waits for it. -/
  gated : (call.dependents job).Nonempty →
    ∀ v ∈ call.createdIds job, ReflTransGen (call.Added job) (call.lastId job) v

end RepairCall

/-! Readiness. -/

section Readiness

variable {job job' : Job}

theorem node?_eq_some (hlabelled : job.graph.Labelled) (hnodup : job.graph.ids.Nodup) {id : String}
    {n : JobNode} : job.node? id = some n ↔ n ∈ job.graph.nodes ∧ n.id = id := by
  constructor
  · intro h
    have hn := List.mem_of_find?_eq_some h
    exact ⟨hn, (Labelled.isFor hlabelled hn id).1 (by simpa using List.find?_some h)⟩
  · rintro ⟨hn, hid⟩
    obtain ⟨m, hm⟩ := Option.isSome_iff_exists.1
      (List.find?_isSome.2 ⟨n, hn, (Labelled.isFor hlabelled hn id).2 hid⟩ : (job.node? id).isSome)
    have hmem := List.mem_of_find?_eq_some hm
    have hmid := (Labelled.isFor hlabelled hmem id).1 (by simpa using List.find?_some hm)
    obtain rfl := List.inj_on_of_nodup_map hnodup hmem hn (hmid.trans hid.symm)
    exact hm

theorem node?_eq_none (hlabelled : job.graph.Labelled) {id : String} :
    job.node? id = none ↔ id ∉ job.graph.ids := by
  rw [Job.node?, List.find?_eq_none, JobGraph.ids, List.mem_map]
  constructor
  · rintro h ⟨n, hn, hid⟩
    exact h n hn ((Labelled.isFor hlabelled hn id).2 hid)
  · exact fun h n hn hfor => h ⟨n, hn, (Labelled.isFor hlabelled hn id).1 hfor⟩

theorem node_done (hlabelled : job.graph.Labelled) (hnodup : job.graph.ids.Nodup) {id : String} :
    (job.node? id).any (·.state = .completed) = true ↔ id ∈ job.done := by
  simp only [Option.any_eq_true, node?_eq_some hlabelled hnodup, decide_eq_true_eq]
  constructor
  · rintro ⟨n, ⟨hn, hid⟩, hstate⟩
    exact ⟨n, hn, hid, hstate⟩
  · rintro ⟨n, hn, hid, hstate⟩
    exact ⟨n, ⟨hn, hid⟩, hstate⟩

theorem dependenciesSatisfied_iff (hlabelled : job.graph.Labelled) (hnodup : job.graph.ids.Nodup)
    {id : String} :
    dependenciesSatisfied job id = true ↔ Ready job.graph.DependsOn job.known job.done id := by
  have hdone : ∀ dep, (job.node? dep).all (·.state = .completed) = true ↔
      (dep ∈ job.known → dep ∈ job.done) := by
    intro dep
    rw [← node_done hlabelled hnodup]
    cases hnode : job.node? dep with
    | none =>
      have hdep : dep ∉ job.known := (node?_eq_none hlabelled).1 hnode
      simp [hdep]
    | some n =>
      obtain ⟨hn, hid⟩ := (node?_eq_some hlabelled hnodup).1 hnode
      have hdep : dep ∈ job.known := hid ▸ List.mem_map_of_mem hn
      simp [hdep]
  unfold dependenciesSatisfied
  cases hnode : job.node? id with
  | none =>
    refine iff_of_true rfl fun b _ hab => ?_
    exact absurd hab.mem_ids ((node?_eq_none hlabelled).1 hnode)
  | some n =>
    obtain ⟨hn, hid⟩ := (node?_eq_some hlabelled hnodup).1 hnode
    simp only [List.all_eq_true, hdone]
    constructor
    · rintro h b hb ⟨m, hm, hmid, hbm⟩
      obtain rfl := List.inj_on_of_nodup_map hnodup hm hn (hmid.trans hid.symm)
      exact h b hbm hb
    · exact fun h b hbn hb => h b hb ⟨n, hn, hid, hbn⟩

theorem outline_entries (graph : JobGraph) :
    graph.entries = graph.outline.map fun o => (o.1, o.2.2) := by
  simp [JobGraph.entries, JobGraph.outline, JobNode.entry]

theorem outline_labelled {graph : JobGraph} :
    graph.Labelled ↔ ∀ o ∈ graph.outline, o.2.1 = some o.1 := by
  simp [JobGraph.Labelled, JobGraph.outline]

section Outline

variable {graph graph' : JobGraph} (h : graph'.outline = graph.outline)

include h

theorem entries_of_outline : graph'.entries = graph.entries := by
  rw [outline_entries, h, ← outline_entries]

theorem ids_of_outline : graph'.ids = graph.ids := by
  rw [JobGraph.ids_entries, entries_of_outline h, ← JobGraph.ids_entries]

theorem dependsOn_of_outline : graph'.DependsOn = graph.DependsOn := by
  funext a b
  rw [JobGraph.dependsOn_entries, entries_of_outline h, ← JobGraph.dependsOn_entries]

theorem labelled_of_outline (hl : graph.Labelled) : graph'.Labelled :=
  outline_labelled.2 (h ▸ outline_labelled.1 hl)

end Outline

/-- A run of the job is a run of its tasks. -/
theorem progress_run (hlabelled : job.graph.Labelled) (hnodup : job.graph.ids.Nodup)
    (h : ReflTransGen Progress job job') :
    job'.graph.outline = job.graph.outline ∧
      ReflTransGen (Advance job.graph.DependsOn job.known) job.done job'.done := by
  induction h with
  | refl => exact ⟨rfl, .refl⟩
  | @tail mid last _ hstep ih =>
    obtain ⟨hsame, hrun⟩ := ih
    refine ⟨hstep.outline.trans hsame, hrun.tail ⟨hstep.kept, fun a ha hnot => ?_⟩⟩
    have hready := (dependenciesSatisfied_iff (labelled_of_outline hsame hlabelled)
      (ids_of_outline hsame ▸ hnodup)).1 (hstep.ready a ha hnot)
    have hknown : mid.known = job.known := by
      rw [Job.known, ids_of_outline hsame]
      rfl
    rw [dependsOn_of_outline hsame, hknown] at hready
    obtain ⟨n, hn, rfl, -⟩ := ha
    refine ⟨?_, hready⟩
    show n.id ∈ job.graph.ids
    rw [← ids_of_outline (hstep.outline.trans hsame)]
    exact List.mem_map_of_mem hn

open Classical in
/-- The job with the nodes of `done` completed. -/
noncomputable def Job.complete (job : Job) (done : Set String) : Job :=
  job.setNodes (job.graph.nodes.map fun n => if n.id ∈ done then { n with state := .completed } else n)

theorem complete_outline (job : Job) (done : Set String) :
    (job.complete done).graph.outline = job.graph.outline := by
  simp only [JobGraph.outline, Job.complete, Job.setNodes, List.map_map]
  exact List.map_congr_left fun n _ => by
    simp only [Function.comp_apply]
    split_ifs <;> rfl

theorem complete_done {done : Set String} (hsub : job.done ⊆ done) (hknown : done ⊆ job.known) :
    (job.complete done).done = done := by
  ext a
  constructor
  · rintro ⟨m, hm, rfl, hstate⟩
    obtain ⟨n, hn, rfl⟩ := List.mem_map.1 hm
    split_ifs at hstate ⊢ with hdone
    · exact hdone
    · exact hsub ⟨n, hn, rfl, hstate⟩
  · intro ha
    obtain ⟨n, hn, rfl⟩ := List.mem_map.1 (hknown ha)
    exact ⟨_, List.mem_map.2 ⟨n, hn, if_pos ha⟩, rfl, rfl⟩

/-- A run of the tasks is one of the job. -/
theorem run_progress (hlabelled : job.graph.Labelled) (hnodup : job.graph.ids.Nodup)
    {done : Set String} (h : ReflTransGen (Advance job.graph.DependsOn job.known) job.done done) :
    ∃ later, ReflTransGen Progress job later ∧ later.done = done := by
  induction h with
  | refl => exact ⟨job, .refl, rfl⟩
  | @tail mid last _ hstep ih =>
    obtain ⟨later, hrun, rfl⟩ := ih
    obtain ⟨hsame, -⟩ := progress_run hlabelled hnodup hrun
    have hknown : later.known = job.known := by
      rw [Job.known, ids_of_outline hsame]
      rfl
    have hlast : last ⊆ later.known := by
      intro a ha
      by_cases hbefore : a ∈ later.done
      · obtain ⟨n, hn, rfl, -⟩ := hbefore
        exact List.mem_map_of_mem hn
      · exact hknown ▸ (hstep.2 a ha hbefore).1
    have hdone := complete_done hstep.1 hlast
    refine ⟨later.complete last, hrun.tail ⟨complete_outline later last, ?_, ?_⟩, hdone⟩
    · exact hdone.symm ▸ hstep.1
    · intro a ha hnot
      rw [dependenciesSatisfied_iff (labelled_of_outline hsame hlabelled)
        (ids_of_outline hsame ▸ hnodup), dependsOn_of_outline hsame, hknown]
      exact (hstep.2 a (hdone ▸ ha) hnot).2

end Readiness

/-! One call. -/

namespace RepairCall

variable {call : RepairCall} {job : Job}

/-- The job's tasks and the new ones. -/
def rewired (hjob : job.Sound) (hfresh : (job.graph.ids ++ call.createdIds job).Nodup) :
    Rewired String where
  old := job.known
  fresh := {a | a ∈ call.createdIds job}
  kept := call.Kept job
  dependents := call.dependents job
  added := call.Added job
  last := call.lastId job
  kept_old := fun a b h => ⟨h.1.mem_ids, hjob.known a b h.1⟩
  dependents_old := fun _ ⟨_, _, h⟩ => h.mem_ids
  added_fresh := fun _ _ h => mem_createdIds_of_added h
  last_fresh := fun ⟨_, _, hold, _⟩ => lastId_mem job (newTasks_of_replaced hold)
  disjoint := fun _ ha => not_created hfresh ha

theorem after_nil (h : call.newTasks = []) : call.after job = job := by
  simp [after, addTasksToJob, addTasks, h]

theorem replaces_of_replaced {old : String} (h : call.replaced = some old) :
    call.replaces = some old := by
  unfold replaced at h
  split_ifs at h
  exact h

theorem replaced_of_replaces {old : String} (hne : call.newTasks ≠ []) (h : call.replaces = some old) :
    call.replaced = some old := by
  rw [replaced, if_neg hne, h]

/-- A node with the id of a new task is idle. -/
theorem idle_of_created (hfresh : (job.graph.ids ++ call.createdIds job).Nodup) {n : JobNode}
    (hn : n ∈ (call.after job).graph.nodes) (hid : n.id ∈ call.createdIds job) : n.state = .idle := by
  have hstates : (call.after job).graph.states =
      job.graph.states ++ (call.created job).map fun t => (t.1, .idle) :=
    after_sameNodes.states.trans grown_extended.states
  have hmem : (n.id, n.state) ∈ (call.after job).graph.states :=
    List.mem_map.2 ⟨n, hn, rfl⟩
  rw [hstates, List.mem_append] at hmem
  obtain hold | hnew := hmem
  · obtain ⟨m, hm, heq⟩ := List.mem_map.1 hold
    obtain ⟨hmid, -⟩ := Prod.mk.inj heq
    exact absurd hid (not_created hfresh (hmid ▸ List.mem_map_of_mem hm))
  · obtain ⟨t, -, heq⟩ := List.mem_map.1 hnew
    exact (Prod.mk.inj heq).2.symm

section Call

variable (hjob : job.Sound) (hfresh : (job.graph.ids ++ call.createdIds job).Nodup)
  (honce : ∀ old ∈ call.replaced, ∀ n ∈ job.graph.nodes, n.dependencies.count old ≤ 1)

include hjob hfresh

theorem acyclic_kept : Acyclic (call.Kept job) :=
  (hjob.acyclic (List.nodup_append.1 hfresh).1).mono fun _ _ h => h.1

include honce

theorem needs_eq : (call.after job).graph.DependsOn = (rewired hjob hfresh).needs := by
  funext a b
  exact propext (after_dependsOn hjob hfresh honce)

theorem acyclic_after_iff : Acyclic (call.after job).graph.DependsOn ↔
    Acyclic (call.Added job) ∧ (rewired hjob hfresh).Forward := by
  rw [needs_eq hjob hfresh honce]
  exact Rewired.acyclic_iff (acyclic_kept hjob hfresh)

/-- Of the nodes, only later new ones may list the replaced task. -/
theorem dependsOn_replaced {old a : String} (hreplaced : call.replaced = some old)
    (hold : old ∈ job.graph.ids) : (call.after job).graph.DependsOn a old ↔
      a ≠ call.firstId job ∧ call.Lists job a old := by
  have hnot : ∀ b, ¬ call.Lists job old b := fun b h =>
    not_created hfresh hold (mem_createdIds_of_lists h)
  have hself : ¬ job.graph.DependsOn old old := fun h =>
    hjob.acyclic (List.nodup_append.1 hfresh).1 old (.single h)
  have hlast : old ≠ call.lastId job := fun h =>
    not_created hfresh hold (h ▸ lastId_mem job (newTasks_of_replaced hreplaced))
  rw [after_dependsOn hjob hfresh honce]
  by_cases ha : a = call.firstId job
  · simp [Added, Kept, ha, hreplaced, hnot, hself, hlast]
  · simp [Added, Kept, ha, hreplaced, hlast]

theorem released_after_iff : (∀ old ∈ call.replaces, old ∈ job.graph.ids →
      ∀ n ∈ (call.after job).graph.nodes, n.id ≠ old → n.state = .idle → old ∉ n.dependencies) ↔
    ∀ old ∈ call.replaces, old ∈ job.graph.ids →
      (call.newTasks = [] → ∀ n ∈ job.graph.nodes, n.state = .idle → old ∉ n.dependencies) ∧
        ∀ t ∈ (call.created job).tail, old ∉ t.2 := by
  refine forall₂_congr fun old hreplaces => forall_congr' fun hold => ?_
  by_cases hnil : call.newTasks = []
  · have hcreated : call.created job = [] := by simp [created, hnil]
    rw [after_nil hnil, hcreated]
    simp only [hnil, List.tail_nil, List.not_mem_nil, false_imp_iff, implies_true, and_true,
      true_imp_iff]
    refine forall₂_congr fun n hn => ⟨fun h hidle hdep => ?_, fun h _ hidle => h hidle⟩
    by_cases hid : n.id = old
    · have hself : job.graph.DependsOn old old := ⟨n, hn, hid, hdep⟩
      exact hjob.acyclic (List.nodup_append.1 hfresh).1 old (.single hself)
    · exact h hid hidle hdep
  · have hreplaced := replaced_of_replaces hnil hreplaces
    have hdeps := fun a => dependsOn_replaced (a := a) hjob hfresh honce hreplaced hold
    have hnodup := (List.nodup_append.1 hfresh).2.1
    obtain ⟨t₀, rest, hcreated⟩ : ∃ t₀ rest, call.created job = t₀ :: rest := by
      cases hc : call.created job with
      | nil => exact absurd (createdIds_eq_nil.1 (by rw [createdIds, hc]; rfl)) hnil
      | cons t₀ rest => exact ⟨t₀, rest, rfl⟩
    have hfirst : call.firstId job = t₀.1 := by simp [firstId, createdIds, hcreated]
    rw [createdIds, hcreated, List.map_cons, List.nodup_cons] at hnodup
    simp only [hnil, false_imp_iff, true_and, hcreated, List.tail_cons]
    constructor
    · intro h t ht hmem
      have hne : t.1 ≠ call.firstId job := fun heq =>
        hnodup.1 (hfirst ▸ heq ▸ List.mem_map_of_mem ht)
      have htmem : t ∈ call.created job := hcreated ▸ List.mem_cons_of_mem t₀ ht
      obtain ⟨n, hn, hid, hdep⟩ := (hdeps t.1).2 ⟨hne, t.2, htmem, hmem⟩
      have hnew : n.id ∈ call.createdIds job := hid ▸ List.mem_map_of_mem htmem
      refine h n hn (fun heq => ?_) (idle_of_created hfresh hn hnew) hdep
      exact not_created hfresh (heq ▸ hold) hnew
    · intro h n hn _ _ hdep
      obtain ⟨hne, ds, hmem, hlists⟩ := (hdeps n.id).1 ⟨n, hn, rfl, hdep⟩
      rw [hcreated, List.mem_cons] at hmem
      obtain heq | hmem := hmem
      · exact hne (by rw [hfirst, ← heq])
      · exact h _ hmem hlists

theorem gated_after_iff (hacyclic : Acyclic (call.after job).graph.DependsOn) :
    (∀ old ∈ call.replaces, ∀ later, ReflTransGen Progress (call.after job) later →
      ∀ d, job.graph.DependsOn d old → dependenciesSatisfied later d = true →
        ∀ v ∈ call.createdIds job, (later.node? v).any (·.state = .completed) = true) ↔
    ((call.dependents job).Nonempty →
      ∀ v ∈ call.createdIds job, ReflTransGen (call.Added job) (call.lastId job) v) := by
  let w := rewired hjob hfresh
  have hneeds : (call.after job).graph.DependsOn = w.needs := needs_eq hjob hfresh honce
  have hnodup : (call.after job).graph.ids.Nodup := after_ids.symm ▸ hfresh
  have hlabelled : (call.after job).graph.Labelled :=
    after_sameNodes.labelled (grown_extended.labelled hjob.labelled)
  have hknown : (call.after job).known = w.old ∪ w.fresh := by
    ext a
    rw [Job.known, after_ids]
    exact List.mem_append
  have hfinite : (w.old ∪ w.fresh).Finite := hknown ▸ List.finite_toSet _
  have hidle : ∀ a ∈ w.fresh, a ∉ (call.after job).done := by
    rintro a ha ⟨n, hn, rfl, hstate⟩
    cases (idle_of_created hfresh hn ha).symm.trans hstate
  -- a later state of the job is a later state of its tasks
  have hlater : ∀ later, ReflTransGen Progress (call.after job) later →
      ReflTransGen (Advance w.needs (w.old ∪ w.fresh)) (call.after job).done later.done ∧
        (∀ d, dependenciesSatisfied later d = true ↔
          Ready w.needs (w.old ∪ w.fresh) later.done d) ∧
        ∀ v, (later.node? v).any (·.state = .completed) = true ↔ v ∈ later.done := by
    intro later hrun
    obtain ⟨hsame, hadvance⟩ := progress_run hlabelled hnodup hrun
    have hl := labelled_of_outline hsame hlabelled
    have hn : later.graph.ids.Nodup := ids_of_outline hsame ▸ hnodup
    have hk : later.known = w.old ∪ w.fresh := by
      rw [← hknown, Job.known, ids_of_outline hsame]
      rfl
    rw [hneeds, hknown] at hadvance
    refine ⟨hadvance, fun d => ?_, fun v => node_done hl hn⟩
    rw [dependenciesSatisfied_iff hl hn, dependsOn_of_outline hsame, hneeds, hk]
  have hgated := Rewired.gated_iff (w := w) (acyclic_kept hjob hfresh) (hneeds ▸ hacyclic) hfinite hidle
  refine Iff.trans ?_ hgated
  constructor
  · rintro h done hrun d ⟨old, hold, hd⟩ hready v hv
    rw [← hneeds, ← hknown] at hrun
    obtain ⟨later, hprogress, rfl⟩ := run_progress hlabelled hnodup hrun
    obtain ⟨-, hsatisfied, hcompleted⟩ := hlater later hprogress
    exact (hcompleted v).1
      (h old (replaces_of_replaced hold) later hprogress d hd ((hsatisfied d).2 hready) v hv)
  · intro h old hold later hprogress d hd hsatisfied v hv
    obtain ⟨hrun, hready, hcompleted⟩ := hlater later hprogress
    have hne : call.newTasks ≠ [] := fun hnil => by simp [createdIds_eq_nil.2 hnil] at hv
    exact (hcompleted v).2
      (h later.done hrun d ⟨old, replaced_of_replaces hne hold, hd⟩ ((hready d).1 hsatisfied) hv)

end Call

/-- A call keeps the graph sound exactly if its plan fits. -/
theorem repaired_iff (hjob : job.Sound) :
    call.Repaired job (call.after job) ↔ call.Fits job := by
  have htasks : (call.after job).tasks.map Task.id = job.graph.ids ++ call.createdIds job := by
    rw [after_tasks, List.map_append, hjob.tasks, List.map_map, createdIds]
    rfl
  constructor
  · intro h
    have hfresh : (job.graph.ids ++ call.createdIds job).Nodup := htasks ▸ h.tasks
    have honce := (after_edges_iff hjob hfresh).1 h.edges
    obtain ⟨hadded, hforward⟩ := (acyclic_after_iff hjob hfresh honce).1 h.acyclic
    exact
      { fresh := hfresh
        once := honce
        acyclic := hadded
        forward := hforward
        released := (released_after_iff hjob hfresh honce).1 h.released
        gated := (gated_after_iff hjob hfresh honce h.acyclic).1 h.gated }
  · intro h
    have hacyclic := (acyclic_after_iff hjob h.fresh h.once).2 ⟨h.acyclic, h.forward⟩
    exact
      { tasks := htasks.symm ▸ h.fresh
        nodes := after_ids.symm ▸ h.fresh
        edges := (after_edges_iff hjob h.fresh).2 h.once
        acyclic := hacyclic
        released := (released_after_iff hjob h.fresh h.once).2 h.released
        gated := (gated_after_iff hjob h.fresh h.once hacyclic).2 h.gated }

end RepairCall

/-! Every job that grew from a created one. -/

/-- States, attempts and the like may differ. -/
structure SameGraph (job job' : Job) : Prop where
  tasks : job'.tasks.map Task.id = job.tasks.map Task.id
  outline : job'.graph.outline = job.graph.outline
  edges : job'.graph.edges = job.graph.edges

/-- Earlier repairs fitted, and named tasks of the job. -/
inductive Grown : Job → Prop
  | created {jobId : String} {now : ℤ} {maxRetries : Option ℕ} {inputs : List JobTaskInput} {job : Job}
      (h : create jobId now maxRetries inputs = .ok job) : Grown job
  | changed {job job' : Job} (h : Grown job) (hsame : SameGraph job job') : Grown job'
  | repaired {job : Job} {call : RepairCall} (h : Grown job) (hfits : call.Fits job)
      (hknown : ∀ a b, call.Lists job a b → b ∈ job.graph.ids ++ call.createdIds job) :
      Grown (call.after job)

theorem SameGraph.sound {job job' : Job} (h : SameGraph job job') (hjob : job.Sound) : job'.Sound where
  labelled := labelled_of_outline h.outline hjob.labelled
  tasks := by rw [h.tasks, hjob.tasks, ids_of_outline h.outline]
  edges := fun a b => by rw [h.edges, hjob.edges a b, dependsOn_of_outline h.outline]
  known := fun a b hab => by
    rw [dependsOn_of_outline h.outline] at hab
    exact ids_of_outline h.outline ▸ hjob.known a b hab
  acyclic := fun hnodup => by
    rw [ids_of_outline h.outline] at hnodup
    exact dependsOn_of_outline h.outline ▸ hjob.acyclic hnodup

namespace RepairCall

variable {call : RepairCall} {job : Job}

theorem Fits.sound (hfits : call.Fits job) (hjob : job.Sound)
    (hknown : ∀ a b, call.Lists job a b → b ∈ job.graph.ids ++ call.createdIds job) :
    (call.after job).Sound := by
  have hrepaired := (repaired_iff hjob).2 hfits
  refine ⟨after_sameNodes.labelled (grown_extended.labelled hjob.labelled), ?_, hrepaired.edges, ?_,
    fun _ => hrepaired.acyclic⟩
  · rw [after_tasks, List.map_append, hjob.tasks, List.map_map, after_ids, createdIds]
    rfl
  · intro a b hab
    rw [after_ids]
    have hold : ∀ a, job.graph.DependsOn a b → b ∈ job.graph.ids ++ call.createdIds job :=
      fun a h => List.mem_append_left _ (hjob.known a b h)
    obtain hadded | hkept | ⟨⟨old, hreplaced, -⟩, rfl⟩ :=
      (after_dependsOn hjob hfits.fresh hfits.once).1 hab
    · unfold Added at hadded
      split_ifs at hadded
      · obtain ⟨hlists, -⟩ | ⟨-, old, -, hdep | hlists⟩ := hadded
        · exact hknown _ _ hlists
        · exact hold _ hdep
        · exact hknown _ _ hlists
      · exact hknown _ _ hadded
    · exact hold _ hkept.1
    · exact List.mem_append_right _ (lastId_mem job (newTasks_of_replaced hreplaced))

end RepairCall

theorem Grown.sound {job : Job} (h : Grown job) : job.Sound := by
  induction h with
  | created h => exact create_sound h
  | changed _ hsame ih => exact hsame.sound ih
  | repaired _ hfits hknown ih => exact hfits.sound ih hknown

namespace RepairCall

variable (call : RepairCall) (claim : Claim) (now : ℤ) (fault : WriteFault) (job : Job)
  (stored : Option Job)

/-- A call that returns leaves a sound graph, and one that throws the job as it was. -/
def Upheld : Prop :=
  match flush claim now fault (call.after job) stored with
  | (.ok _, cached, _) => call.Repaired job cached
  | (.error _, cached, _) => cached = job

/-- Of a call that throws there are no new tasks, and what fails late finds the revision advanced. -/
def Accepts : Prop :=
  match fault, flushCheck claim now job stored with
  | .refused, _ => call.newTasks = []
  | _, .error _ => call.newTasks = []
  | .none, .ok () => call.Fits job
  | _, .ok () => call.newTasks = [] ∧ advance job stored = job

variable {call claim now fault job stored}

theorem flushCheck_revision {job' : Job} (h : job'.revision = job.revision) :
    flushCheck claim now job' stored = flushCheck claim now job stored := by
  cases stored with
  | none => rfl
  | some current => simp only [flushCheck, h]

theorem Repaired.congr {after after' : Job} (htasks : after'.tasks = after.tasks)
    (hgraph : after'.graph = after.graph) (h : call.Repaired job after) : call.Repaired job after' where
  tasks := htasks ▸ h.tasks
  nodes := hgraph ▸ h.nodes
  edges := hgraph ▸ h.edges
  acyclic := hgraph ▸ h.acyclic
  released := hgraph ▸ h.released
  gated := by
    intro old hold later hrun d hd hready
    have hnode : after'.node? = after.node? := by
      funext id
      rw [Job.node?, hgraph]
      rfl
    have hdone : after'.done = after.done := by
      rw [Job.done, hgraph]
      rfl
    have hsatisfied : ∀ id, dependenciesSatisfied after' id = dependenciesSatisfied after id := by
      intro id
      simp only [dependenciesSatisfied, hnode]
    obtain rfl | ⟨mid, hstep, hrest⟩ := hrun.cases_head
    · rw [hnode]
      exact h.gated old hold after .refl d hd (hsatisfied d ▸ hready)
    · have hfirst : Progress after mid :=
        ⟨hgraph ▸ hstep.outline, hdone ▸ hstep.kept, fun a ha hnot =>
          hsatisfied a ▸ hstep.ready a ha (hdone ▸ hnot)⟩
      exact h.gated old hold later (hrest.head hfirst) d hd hready

theorem newTasks_nil (h : (call.after job).tasks = job.tasks) : call.newTasks = [] := by
  rw [after_tasks, List.append_right_eq_self, List.map_eq_nil_iff] at h
  exact createdIds_eq_nil.1 (by rw [createdIds, h]; rfl)

theorem after_eq_iff : call.after job = job ↔ call.newTasks = [] :=
  ⟨fun h => newTasks_nil (congrArg Job.tasks h), after_nil⟩

theorem advance_after_iff :
    advance (call.after job) stored = job ↔ call.newTasks = [] ∧ advance job stored = job := by
  constructor
  · intro h
    have htasks : (advance (call.after job) stored).tasks = job.tasks := congrArg Job.tasks h
    have hnil : call.newTasks = [] := newTasks_nil htasks
    rw [after_nil hnil] at h
    exact ⟨hnil, h⟩
  · rintro ⟨hnil, h⟩
    rw [after_nil hnil, h]

/-- Of every job that grew from a created one, a call does what it should exactly if its plan fits, or
it throws, adds nothing and has not touched the revision. -/
theorem repair_upheld_iff (h : Grown job) :
    call.Upheld claim now fault job stored ↔ call.Accepts claim now fault job stored := by
  have hcheck : flushCheck claim now (call.after job) stored = flushCheck claim now job stored :=
    flushCheck_revision (addTasksToJob_revision _ _ _ _)
  have hreturns : call.Repaired job (advance (call.after job) stored) ↔ call.Fits job := by
    rw [← repaired_iff h.sound]
    exact ⟨Repaired.congr rfl rfl, Repaired.congr rfl rfl⟩
  unfold Upheld Accepts flush
  rw [hcheck]
  cases hc : flushCheck claim now job stored with
  | error e => cases fault <;> exact after_eq_iff
  | ok u =>
    cases fault with
    | none => exact hreturns
    | refused => exact after_eq_iff
    | unclonable => exact advance_after_iff
    | notWritten => exact advance_after_iff
    | writtenAnyway => exact advance_after_iff

end RepairCall

/-! A plan of two tasks that do not need each other. -/

/-- `deploy` waits for `build`. -/
def deployInputs : List JobTaskInput := [⟨some "build", none⟩, ⟨some "deploy", some ["build"]⟩]

def deployNodes (build : AgentState) : List JobNode :=
  [{ newNode "build" [] with state := build, children := ["deploy"] }, newNode "deploy" ["build"]]

def deployJob (build : AgentState) : Job where
  id := "job-1"
  revision := none
  control := none
  ownership := none
  status := .pending
  tasks := [⟨"build", .pending⟩, ⟨"deploy", .pending⟩]
  graph := ⟨deployNodes build, [⟨"build", "deploy"⟩]⟩
  maxRetries := some 3
  createdAt := 0
  startedAt := none
  completedAt := none

theorem deployJob_grown : Grown (deployJob .failed) := by
  have hcreate : create "job-1" 0 none deployInputs = .ok (deployJob .idle) := by decide
  exact .changed (.created hcreate) ⟨rfl, rfl, rfl⟩

/-- `build` is replaced by two tasks. -/
def parallelPlan : RepairCall :=
  ⟨"k", [⟨some "fix-a", none⟩, ⟨some "fix-b", none⟩], some "build"⟩

def repairedJob : Job := parallelPlan.after (deployJob .failed)

/-- The second task is completed, the first not even started. -/
def halfRepaired : Job :=
  repairedJob.setNodes (repairedJob.graph.nodes.map fun n =>
    if n.id = "fix-b" then { n with state := .completed } else n)

theorem half_progress : Progress repairedJob halfRepaired := by
  have hbefore : ∀ n ∈ repairedJob.graph.nodes, n.state ≠ .completed := by decide
  have hafter : ∀ n ∈ halfRepaired.graph.nodes, n.state = .completed → n.id = "fix-b" := by
    decide
  refine ⟨by decide, ?_, ?_⟩
  · rintro a ⟨n, hn, -, hstate⟩
    exact absurd hstate (hbefore n hn)
  · rintro a ⟨n, hn, rfl, hstate⟩ -
    rw [hafter n hn hstate]
    decide

/-- `deploy` is ready once `fix-b` is completed, whatever becomes of `fix-a`. -/
theorem deploy_runs_ahead : ¬ ∀ (job : Job) (call : RepairCall) (claim : Claim) (now : ℤ)
    (fault : WriteFault) (stored : Option Job), Grown job →
      call.Upheld claim now fault job stored := by
  intro hall
  have h : parallelPlan.Repaired (deployJob .failed) (advance repairedJob none) :=
    hall (deployJob .failed) parallelPlan ⟨"here", none⟩ 10 .none none deployJob_grown
  have hdepends : (deployJob .failed).graph.DependsOn "deploy" "build" :=
    ⟨newNode "deploy" ["build"], by decide, rfl, by decide⟩
  have hrepaired := @RepairCall.Repaired.congr _ _ (advance repairedJob none) repairedJob rfl rfl h
  have hgated := hrepaired.gated "build" rfl halfRepaired (.single half_progress) "deploy" hdepends
    (by decide) "fix-a" (by decide)
  have hidle : (halfRepaired.node? "fix-a").any (·.state = .completed) = false := by decide
  cases hidle.symm.trans hgated

/-! A plan whose last task leads to the first. -/

def chainPlan : RepairCall :=
  ⟨"k", [⟨some "fix-a", some ["build"]⟩, ⟨some "fix-b", some ["fix-a"]⟩], some "build"⟩

theorem chain_lists {a b : String} (h : chainPlan.Lists (deployJob .failed) a b) :
    a = "fix-a" ∧ b = "build" ∨ a = "fix-b" ∧ b = "fix-a" := by
  have hcreated : chainPlan.created (deployJob .failed) =
      [("fix-a", ["build"]), ("fix-b", ["fix-a"])] := by decide
  obtain ⟨ds, hmem, hb⟩ := h
  rw [hcreated] at hmem
  simp only [List.mem_cons, Prod.mk.injEq, List.not_mem_nil, or_false] at hmem
  obtain ⟨rfl, rfl⟩ | ⟨rfl, rfl⟩ := hmem
  · exact .inl ⟨rfl, List.mem_singleton.1 hb⟩
  · exact .inr ⟨rfl, List.mem_singleton.1 hb⟩

theorem chain_added {a b : String} :
    chainPlan.Added (deployJob .failed) a b ↔ a = "fix-b" ∧ b = "fix-a" := by
  have hfirst : chainPlan.firstId (deployJob .failed) = "fix-a" := by decide
  have hreplaced : chainPlan.replaced = some "build" := by decide
  have hbuild : ¬ (deployJob .failed).graph.DependsOn "build" b := by
    rintro ⟨n, hn, hid, hb⟩
    have hnone : ∀ n ∈ (deployJob .failed).graph.nodes, n.id = "build" → n.dependencies = [] := by
      decide
    simp [hnone n hn hid] at hb
  have hlast : chainPlan.Lists (deployJob .failed) "fix-b" "fix-a" :=
    ⟨["fix-a"], by decide, by decide⟩
  rw [RepairCall.Added, hfirst, hreplaced]
  constructor
  · intro h
    split_ifs at h with ha
    · obtain ⟨hlists, hne⟩ | ⟨-, old, hold, hdep | hlists⟩ := h
      · obtain ⟨-, rfl⟩ | h := chain_lists hlists
        · exact absurd rfl hne
        · exact h
      · obtain rfl := Option.some.inj hold
        exact absurd hdep hbuild
      · obtain rfl := Option.some.inj hold
        simpa using chain_lists hlists
    · obtain ⟨rfl, -⟩ | h := chain_lists h
      · exact absurd rfl ha
      · exact h
  · rintro ⟨rfl, rfl⟩
    rw [if_neg (by decide)]
    exact hlast

theorem chain_reach {a : String}
    (h : ReflTransGen (chainPlan.Added (deployJob .failed)) "fix-b" a) : a ∈ ["fix-b", "fix-a"] := by
  induction h with
  | refl => exact List.mem_cons_self
  | tail _ hstep _ =>
    rw [(chain_added.1 hstep).2]
    decide

theorem chain_fits : chainPlan.Fits (deployJob .failed) where
  fresh := by decide
  once := by
    intro old hold n hn
    have hcount : ∀ n ∈ (deployJob .failed).graph.nodes, ∀ old ∈ chainPlan.replaced,
        n.dependencies.count old ≤ 1 := by decide
    exact hcount n hn old hold
  acyclic := by
    intro a hcycle
    obtain ⟨b, hab, -⟩ := TransGen.head'_iff.1 hcycle
    obtain ⟨c, -, hca⟩ := TransGen.tail'_iff.1 hcycle
    have hne : "fix-b" ≠ "fix-a" := by decide
    exact hne ((chain_added.1 hab).1.symm.trans (chain_added.1 hca).2)
  forward := by
    intro a b ha hb hdependent
    have hnot : ∀ a ∈ ["fix-b", "fix-a"], a ∉ (deployJob .failed).graph.ids := by decide
    have hnew := hnot a (chain_reach ha)
    obtain rfl | ⟨c, hkept, -⟩ := hb.cases_head
    · obtain ⟨old, -, hdep⟩ := hdependent
      exact hnew hdep.mem_ids
    · exact hnew hkept.1.mem_ids
  released := by
    intro old hold _
    have hreplaces : chainPlan.replaces = some "build" := by decide
    obtain rfl : old = "build" := Option.some.inj (hold.symm.trans hreplaces)
    refine ⟨fun hnil => ?_, by decide⟩
    cases hnil
  gated := by
    intro _ v hv
    have hcreated : chainPlan.createdIds (deployJob .failed) = ["fix-a", "fix-b"] := by
      decide
    have hlast : chainPlan.lastId (deployJob .failed) = "fix-b" := by decide
    rw [hcreated, List.mem_cons, List.mem_singleton] at hv
    rw [hlast]
    obtain rfl | rfl := hv
    · exact .single (chain_added.2 ⟨rfl, rfl⟩)
    · exact .refl

theorem chain_upheld : chainPlan.Upheld ⟨"here", none⟩ 10 .none (deployJob .failed) none :=
  (RepairCall.repair_upheld_iff deployJob_grown).2 chain_fits

end Wazir.Jobs
