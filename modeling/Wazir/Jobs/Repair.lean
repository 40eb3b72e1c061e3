import Wazir.Jobs.JobGraph

/-! What `addTasksToJob` makes of a job's dependencies and edges. -/

namespace Wazir.Jobs

open Wazir.Core
open Rewiring (Acyclic)
open Relation

/-- The arguments of a call of `addTasksToJob`. -/
structure RepairCall where
  stamp : String
  newTasks : List JobTaskInput
  replacesTaskId : Option String

namespace RepairCall

variable (call : RepairCall) (job : Job)

def after : Job := addTasksToJob call.stamp call.newTasks call.replacesTaskId job

def entry (jobId : String) (input : JobTaskInput × ℕ) : String × List String :=
  (input.1.id.getD ("task-" ++ jobId ++ "-dyn-" ++ call.stamp ++ "-" ++ toString input.2),
    input.1.deps)

/-- The new tasks with what they list. -/
def created : List (String × List String) := call.newTasks.zipIdx.map (call.entry job.id)

def createdIds : List String := (call.created job).map Prod.fst

/-- The task to replace; an empty id is none. -/
def replaces : Option String := call.replacesTaskId.filter (· ≠ "")

/-- Without a new task nothing takes its place. -/
def replaced : Option String := if call.newTasks = [] then none else call.replaces

def firstId : String := (call.createdIds job).headD ""

def lastId : String := (call.createdIds job).getLastD ""

def Lists (a b : String) : Prop := ∃ ds, (a, ds) ∈ call.created job ∧ b ∈ ds

/-- What the job's tasks still need of each other. -/
def Kept (a b : String) : Prop := job.graph.DependsOn a b ∧ call.replaced ≠ some b

def dependents : Set String := {d | ∃ old ∈ call.replaced, job.graph.DependsOn d old}

/-- What the new tasks need. The first one needs what the replaced task needs, and not that task. -/
def Added (a b : String) : Prop :=
  if a = call.firstId job then
    call.Lists job a b ∧ call.replaced ≠ some b ∨
      a ∈ call.createdIds job ∧
        ∃ old ∈ call.replaced, job.graph.DependsOn old b ∨ call.Lists job old b
  else call.Lists job a b

end RepairCall

/-! The loop over the new tasks. -/

theorem foldl_addTask (call : RepairCall) (inputs : List (JobTaskInput × ℕ)) (job : Job)
    (ids : List String) :
    inputs.foldl (addTask call.stamp) (job, ids) =
      ({ job with
          tasks := job.tasks ++ (inputs.map (call.entry job.id)).map fun t => ⟨t.1, .pending⟩
          graph := addNodes JobNode.isFor job.graph (inputs.map (call.entry job.id)) },
        ids ++ (inputs.map (call.entry job.id)).map Prod.fst) := by
  induction inputs generalizing job ids with
  | nil => simp [addNodes]
  | cons input inputs ih =>
    rw [List.foldl_cons, addTask, ih]
    simp [addNodes, RepairCall.entry]

namespace RepairCall

variable {call : RepairCall} {job : Job}

theorem addTasks_eq : addTasks call.stamp call.newTasks job =
    ({ job with
        tasks := job.tasks ++ (call.created job).map fun t => ⟨t.1, .pending⟩
        graph := addNodes JobNode.isFor job.graph (call.created job) }, call.createdIds job) := by
  rw [addTasks, foldl_addTask, List.nil_append]
  rfl

/-- The graph with the new tasks, before anything is replaced. -/
def grown (call : RepairCall) (job : Job) : JobGraph :=
  addNodes JobNode.isFor job.graph (call.created job)

theorem grown_extended : Extended job.graph (call.created job) (call.grown job) :=
  addNodes_extended _ _ _

theorem createdIds_eq_nil : call.createdIds job = [] ↔ call.newTasks = [] := by
  simp [createdIds, created]

theorem after_tasks : (call.after job).tasks =
    job.tasks ++ (call.created job).map fun t => ⟨t.1, .pending⟩ := by
  unfold after addTasksToJob
  rw [addTasks_eq]
  simp only
  split
  · split_ifs <;> rfl
  · rfl

theorem after_graph : (call.after job).graph =
    match call.replaced with
    | none => call.grown job
    | some old => redirectDependents old (call.lastId job) (call.createdIds job)
        (inheritDependencies old (call.firstId job) (call.grown job)) := by
  unfold after addTasksToJob
  rw [addTasks_eq]
  cases hcreated : call.createdIds job with
  | nil => simp [replaced, createdIds_eq_nil.1 hcreated, grown]
  | cons first rest =>
    have hne : call.newTasks ≠ [] := fun h => by simp [createdIds_eq_nil.2 h] at hcreated
    have hlast : (first :: rest).getLast? = some ((first :: rest).getLastD "") := by
      rw [List.getLastD_eq_getLast?, List.getLast?_cons]
      rfl
    simp only [List.head?_cons, hlast, replaced, if_neg hne, replaces, firstId, lastId, hcreated,
      List.headD_cons]
    cases call.replacesTaskId with
    | none => rfl
    | some old =>
      by_cases hold : old = ""
      · simp [hold, grown, Option.filter]
      · simp [hold, grown, Option.filter]

end RepairCall

/-! Both changes, where ids are distinct and each node is its task's. -/

theorem updateFirst_id {nodes : List JobNode} (hnodup : (nodes.map JobNode.id).Nodup) (id : String)
    (f : JobNode → JobNode) :
    updateFirst (·.id = id) f nodes = nodes.map fun n => if n.id = id then f n else n := by
  induction nodes with
  | nil => rfl
  | cons n rest ih =>
    obtain ⟨hn, hrest⟩ := List.nodup_cons.1 hnodup
    rw [updateFirst, List.map_cons]
    by_cases hid : n.id = id
    · have hsame : ∀ m ∈ rest, (if m.id = id then f m else m) = m := fun m hm =>
        if_neg fun hsame : m.id = id => hn (hid.trans hsame.symm ▸ List.mem_map_of_mem hm)
      rw [if_pos (by simpa using hid), if_pos hid, List.map_congr_left hsame, List.map_id']
    · rw [if_neg (by simpa using hid), if_neg hid, ih hrest]

/-- Of a list that has `old` once, `old` is replaced. -/
theorem mem_updateFirst_eq {old new b : String} {l : List String} (honce : l.count old ≤ 1) :
    b ∈ updateFirst (· = old) (fun _ => new) l ↔ b ∈ l ∧ b ≠ old ∨ b = new ∧ old ∈ l := by
  induction l with
  | nil => simp [updateFirst]
  | cons a rest ih =>
    rw [updateFirst]
    by_cases ha : a = old
    · subst ha
      have hnot : a ∉ rest := by
        rw [List.count_cons_self] at honce
        rw [← List.count_eq_zero]
        omega
      have hb : b ∈ rest → b ≠ a := fun hb hba => hnot (hba ▸ hb)
      simp only [decide_true, if_true, List.mem_cons]
      tauto
    · rw [List.count_cons_of_ne (by simpa using ha)] at honce
      simp only [ha, decide_false, Bool.false_eq_true, if_false, List.mem_cons, ih honce]
      grind

/-- Of a list that has it more often, it is left. -/
theorem mem_updateFirst_twice {old new : String} {l : List String} (htwice : 2 ≤ l.count old) :
    old ∈ updateFirst (· = old) (fun _ => new) l := by
  induction l with
  | nil => simp at htwice
  | cons a rest ih =>
    rw [updateFirst]
    by_cases ha : a = old
    · subst ha
      rw [List.count_cons_self] at htwice
      have hmem : a ∈ rest := List.count_pos_iff.1 (by omega)
      simp [hmem]
    · rw [List.count_cons_of_ne (by simpa using ha)] at htwice
      simp [ha, ih htwice]

theorem mem_foldl_addEdge {edges : List TaskGraphEdge} {ds : List String} {id : String}
    {e : TaskGraphEdge} :
    e ∈ ds.foldl (fun edges dep => addEdge edges ⟨dep, id⟩) edges ↔
      e ∈ edges ∨ e.target = id ∧ e.source ∈ ds := by
  induction ds generalizing edges with
  | nil => simp
  | cons d ds ih =>
    rw [List.foldl_cons, ih, addEdge]
    obtain ⟨source, target⟩ := e
    split_ifs with hmem
    · constructor
      · grind
      · grind
    · grind

variable {n : JobNode}

section Changes

variable {graph : JobGraph} {old first last : String} {newIds : List String}

theorem Labelled.isFor (hlabelled : graph.Labelled) (hn : n ∈ graph.nodes) (id : String) :
    n.isFor id = true ↔ n.id = id := by
  simp [JobNode.isFor, hlabelled n hn]

/-- `nodes.find(…)?.dependencies ?? []` -/
theorem mem_found (hlabelled : graph.Labelled) (hnodup : graph.ids.Nodup) {b : String} :
    b ∈ ((graph.nodes.find? (·.isFor old)).map (·.dependencies)).getD [] ↔
      graph.DependsOn old b := by
  cases hfind : graph.nodes.find? (·.isFor old) with
  | none =>
    refine iff_of_false List.not_mem_nil fun ⟨n, hn, hid, _⟩ => ?_
    exact List.find?_eq_none.1 hfind n hn ((Labelled.isFor hlabelled hn old).2 hid)
  | some n =>
    have hn := List.mem_of_find?_eq_some hfind
    have hid : n.id = old := (Labelled.isFor hlabelled hn old).1 (by simpa using List.find?_some hfind)
    constructor
    · exact fun hb => ⟨n, hn, hid, hb⟩
    · rintro ⟨m, hm, hmid, hb⟩
      obtain rfl := List.inj_on_of_nodup_map hnodup hm hn (hmid.trans hid.symm)
      exact hb

/-- What the first new node lists in the end. -/
def inheriting (old : String) (graph : JobGraph) (n : JobNode) : JobNode :=
  { n with dependencies := n.dependencies.filter (· ≠ old) ++
      ((graph.nodes.find? (·.isFor old)).map (·.dependencies)).getD [] }

theorem inherit_nodes (hnodup : graph.ids.Nodup) (hfirst : first ∈ graph.ids) :
    (inheritDependencies old first graph).nodes =
      graph.nodes.map fun n => if n.id = first then inheriting old graph n else n := by
  have hany : graph.nodes.any (·.id = first) = true := by
    obtain ⟨n, hn, hid⟩ := List.mem_map.1 hfirst
    exact List.any_eq_true.2 ⟨n, hn, by simpa using hid⟩
  unfold inheritDependencies
  simp only [hany, if_true]
  exact updateFirst_id hnodup first _

/-- Only dependencies and edges change. -/
structure SameNodes (graph graph' : JobGraph) : Prop where
  ids : graph'.ids = graph.ids
  states : graph'.states = graph.states
  labelled : graph.Labelled → graph'.Labelled

theorem SameNodes.trans {graph₁ graph₂ : JobGraph} (h : SameNodes graph graph₁)
    (h' : SameNodes graph₁ graph₂) : SameNodes graph graph₂ where
  ids := h'.ids.trans h.ids
  states := h'.states.trans h.states
  labelled := fun hl => h'.labelled (h.labelled hl)

theorem inherit_sameNodes (old first : String) (graph : JobGraph) :
    SameNodes graph (inheritDependencies old first graph) := by
  unfold inheritDependencies
  simp only
  split_ifs
  · refine ⟨?_, ?_, fun hl n hn => ?_⟩
    · apply map_updateFirst
      exact fun n => rfl
    · apply map_updateFirst
      exact fun n => rfl
    · obtain hn | ⟨m, hm, rfl⟩ := mem_updateFirst hn
      · exact hl n hn
      · exact hl m hm
  · exact ⟨rfl, rfl, id⟩

theorem redirect_sameNodes (old last : String) (newIds : List String) (graph : JobGraph) :
    SameNodes graph (redirectDependents old last newIds graph) where
  ids := by
    rw [JobGraph.ids, redirectDependents, List.map_map]
    exact List.map_congr_left fun n _ => by simp only [Function.comp_apply]; split_ifs <;> rfl
  states := by
    rw [JobGraph.states, redirectDependents, List.map_map]
    exact List.map_congr_left fun n _ => by simp only [Function.comp_apply]; split_ifs <;> rfl
  labelled := fun hl n hn => by
    obtain ⟨m, hm, rfl⟩ := List.mem_map.1 hn
    split_ifs <;> exact hl m hm

theorem inherit_dependsOn (hlabelled : graph.Labelled) (hnodup : graph.ids.Nodup)
    (hfirst : first ∈ graph.ids) {a b : String} :
    (inheritDependencies old first graph).DependsOn a b ↔
      if a = first then graph.DependsOn a b ∧ b ≠ old ∨ graph.DependsOn old b
      else graph.DependsOn a b := by
  have hmem : ∀ n : JobNode, b ∈ (inheriting old graph n).dependencies ↔
      b ∈ n.dependencies ∧ b ≠ old ∨ graph.DependsOn old b := fun n => by
    simp only [inheriting, List.mem_append, List.mem_filter, decide_eq_true_eq,
      mem_found hlabelled hnodup]
  simp only [JobGraph.DependsOn, inherit_nodes hnodup hfirst, List.mem_map]
  constructor
  · rintro ⟨_, ⟨n, hn, rfl⟩, hid, hb⟩
    split_ifs at hid hb with hn'
    · obtain rfl : n.id = a := hid
      rw [if_pos hn']
      obtain ⟨hb, hne⟩ | hb := (hmem n).1 hb
      · exact .inl ⟨⟨n, hn, rfl, hb⟩, hne⟩
      · exact .inr hb
    · obtain rfl := hid
      rw [if_neg hn']
      exact ⟨n, hn, rfl, hb⟩
  · intro h
    split_ifs at h with ha
    · subst ha
      obtain ⟨⟨n, hn, hid, hb⟩, hne⟩ | hb := h
      · refine ⟨_, ⟨n, hn, if_pos hid⟩, hid, (hmem n).2 (.inl ⟨hb, hne⟩)⟩
      · obtain ⟨n, hn, hid⟩ := List.mem_map.1 hfirst
        exact ⟨_, ⟨n, hn, if_pos hid⟩, hid, (hmem n).2 (.inr hb)⟩
    · obtain ⟨n, hn, rfl, hb⟩ := h
      exact ⟨n, ⟨n, hn, if_neg ha⟩, rfl, hb⟩

theorem inherit_edges (hlabelled : graph.Labelled) (hnodup : graph.ids.Nodup)
    (hfirst : first ∈ graph.ids) (hedges : graph.EdgesExact) :
    (inheritDependencies old first graph).EdgesExact := by
  have hsame := inherit_sameNodes old first graph
  have hany : graph.nodes.any (·.id = first) = true := by
    obtain ⟨n, hn, hid⟩ := List.mem_map.1 hfirst
    exact List.any_eq_true.2 ⟨n, hn, by simpa using hid⟩
  have hfound : ∀ b, b ∈ (((inheritDependencies old first graph).nodes.find? (·.isFor old)).map
      (·.dependencies)).getD [] ↔ (inheritDependencies old first graph).DependsOn old b := fun b =>
    mem_found (hsame.labelled hlabelled) (hsame.ids ▸ hnodup)
  have hold : ∀ b, (inheritDependencies old first graph).DependsOn old b ↔ graph.DependsOn old b := by
    intro b
    rw [inherit_dependsOn hlabelled hnodup hfirst]
    split_ifs with h
    · tauto
    · rfl
  intro a b
  rw [inherit_dependsOn hlabelled hnodup hfirst]
  simp only [hold] at hfound
  unfold inheritDependencies at hfound ⊢
  simp only [hany, if_true] at hfound ⊢
  rw [mem_foldl_addEdge, hfound, List.mem_filter, hedges a b]
  by_cases ha : a = first
  · simp [ha]
  · simp [ha]

theorem redirect_edges {a b : String} :
    ⟨b, a⟩ ∈ (redirectDependents old last newIds graph).edges ↔
      if a ∈ newIds then ⟨b, a⟩ ∈ graph.edges
      else ⟨b, a⟩ ∈ graph.edges ∧ b ≠ old ∨ b = last ∧ ⟨old, a⟩ ∈ graph.edges := by
  simp only [redirectDependents, List.mem_map]
  constructor
  · rintro ⟨⟨source, target⟩, he, heq⟩
    split_ifs at heq with hmoved
    · obtain ⟨rfl, htarget⟩ := hmoved
      cases heq
      rw [if_neg htarget]
      exact .inr ⟨rfl, he⟩
    · cases heq
      split_ifs with ha
      · exact he
      · exact .inl ⟨he, fun hb => hmoved ⟨hb, ha⟩⟩
  · intro h
    split_ifs at h with ha
    · exact ⟨_, h, if_neg fun hmoved => hmoved.2 ha⟩
    · obtain ⟨he, hb⟩ | ⟨rfl, he⟩ := h
      · exact ⟨_, he, if_neg fun hmoved => hb hmoved.1⟩
      · exact ⟨_, he, if_pos ⟨rfl, ha⟩⟩

/-- The nodes that are not new are the ones redirected. -/
theorem redirect_nodes (hlabelled : graph.Labelled) :
    (redirectDependents old last newIds graph).nodes = graph.nodes.map fun n =>
      if n.id ∈ newIds then n
      else { n with dependencies := updateFirst (· = old) (fun _ => last) n.dependencies } := by
  refine List.map_congr_left fun n hn => ?_
  simp only [hlabelled n hn, Option.getD_some, and_self]
  split_ifs <;> rfl

theorem redirect_dependsOn (hlabelled : graph.Labelled)
    (honce : ∀ n ∈ graph.nodes, n.id ∉ newIds → n.dependencies.count old ≤ 1) {a b : String} :
    (redirectDependents old last newIds graph).DependsOn a b ↔
      if a ∈ newIds then graph.DependsOn a b
      else graph.DependsOn a b ∧ b ≠ old ∨ b = last ∧ graph.DependsOn a old := by
  simp only [JobGraph.DependsOn, redirect_nodes hlabelled, List.mem_map]
  constructor
  · rintro ⟨_, ⟨n, hn, rfl⟩, hid, hb⟩
    split_ifs at hid hb with hnew
    · obtain rfl := hid
      rw [if_pos hnew]
      exact ⟨n, hn, rfl, hb⟩
    · obtain rfl : n.id = a := hid
      rw [if_neg hnew]
      obtain ⟨hb, hne⟩ | ⟨hlast, hold⟩ := (mem_updateFirst_eq (honce n hn hnew)).1 hb
      · exact .inl ⟨⟨n, hn, rfl, hb⟩, hne⟩
      · exact .inr ⟨hlast, n, hn, rfl, hold⟩
  · intro h
    split_ifs at h with hnew
    · obtain ⟨n, hn, rfl, hb⟩ := h
      exact ⟨n, ⟨n, hn, if_pos hnew⟩, rfl, hb⟩
    · have hsome : ∃ n ∈ graph.nodes, n.id = a ∧
          b ∈ updateFirst (· = old) (fun _ => last) n.dependencies := by
        obtain ⟨⟨n, hn, rfl, hb⟩, hne⟩ | ⟨rfl, n, hn, rfl, hb⟩ := h
        · exact ⟨n, hn, rfl, (mem_updateFirst_eq (honce n hn hnew)).2 (.inl ⟨hb, hne⟩)⟩
        · exact ⟨n, hn, rfl, (mem_updateFirst_eq (honce n hn hnew)).2 (.inr ⟨rfl, hb⟩)⟩
      obtain ⟨n, hn, rfl, hb⟩ := hsome
      exact ⟨_, ⟨n, hn, if_neg hnew⟩, rfl, hb⟩

/-- A node that lists the replaced task again still does, and its edges do not. -/
theorem redirect_twice (hlabelled : graph.Labelled) (hlast : last ≠ old) (hn : n ∈ graph.nodes)
    (hnew : n.id ∉ newIds) (htwice : 2 ≤ n.dependencies.count old) :
    ¬ (redirectDependents old last newIds graph).EdgesExact := by
  intro hedges
  have hdep : (redirectDependents old last newIds graph).DependsOn n.id old := by
    rw [JobGraph.DependsOn, redirect_nodes hlabelled]
    exact ⟨_, List.mem_map_of_mem hn, by simp [hnew], by simpa [hnew] using mem_updateFirst_twice htwice⟩
  have hedge := (hedges _ _).2 hdep
  rw [redirect_edges, if_neg hnew] at hedge
  obtain ⟨-, hne⟩ | ⟨heq, -⟩ := hedge
  · exact hne rfl
  · exact hlast heq.symm

end Changes

/-! The call as a whole. -/

namespace RepairCall

variable {call : RepairCall} {job : Job} {a b old : String}

theorem mem_createdIds_of_lists (h : call.Lists job a b) : a ∈ call.createdIds job := by
  obtain ⟨ds, hmem, -⟩ := h
  exact List.mem_map_of_mem hmem

theorem firstId_mem (job : Job) (h : call.newTasks ≠ []) :
    call.firstId job ∈ call.createdIds job := by
  cases hcreated : call.createdIds job with
  | nil => exact absurd (createdIds_eq_nil.1 hcreated) h
  | cons first rest => simp [firstId, hcreated]

theorem lastId_mem (job : Job) (h : call.newTasks ≠ []) : call.lastId job ∈ call.createdIds job := by
  cases hcreated : call.createdIds job with
  | nil => exact absurd (createdIds_eq_nil.1 hcreated) h
  | cons first rest =>
    rw [lastId, hcreated, List.getLastD_cons]
    exact List.getLastD_mem_cons

theorem newTasks_of_replaced (h : call.replaced = some old) : call.newTasks ≠ [] := by
  intro hnil
  simp [replaced, hnil] at h

theorem mem_createdIds_of_added (h : call.Added job a b) : a ∈ call.createdIds job := by
  unfold Added at h
  split_ifs at h
  · obtain ⟨hlists, -⟩ | ⟨hmem, -⟩ := h
    · exact mem_createdIds_of_lists hlists
    · exact hmem
  · exact mem_createdIds_of_lists h

theorem grown_dependsOn : (call.grown job).DependsOn a b ↔
    job.graph.DependsOn a b ∨ call.Lists job a b :=
  grown_extended.dependsOn

theorem grown_ids : (call.grown job).ids = job.graph.ids ++ call.createdIds job :=
  grown_extended.ids

/-- Whatever the ids are, the nodes are the old ones and the new ones. -/
theorem after_sameNodes : SameNodes (call.grown job) (call.after job).graph := by
  rw [after_graph]
  cases call.replaced with
  | none => exact ⟨rfl, rfl, id⟩
  | some old => exact (inherit_sameNodes old _ _).trans (redirect_sameNodes old _ _ _)

theorem after_ids : (call.after job).graph.ids = job.graph.ids ++ call.createdIds job :=
  after_sameNodes.ids.trans grown_ids

section Fresh

theorem not_created (hfresh : (job.graph.ids ++ call.createdIds job).Nodup)
    (ha : a ∈ job.graph.ids) : a ∉ call.createdIds job :=
  fun hnew => (List.nodup_append.1 hfresh).2.2 a ha a hnew rfl

variable (hjob : job.Sound) (hfresh : (job.graph.ids ++ call.createdIds job).Nodup)

/-- A node that is not new lists what it listed. -/
theorem grown_old (hn : n ∈ (call.grown job).nodes) (hnew : n.id ∉ call.createdIds job) :
    ∃ m ∈ job.graph.nodes, m.id = n.id ∧ m.dependencies = n.dependencies := by
  have hentry : n.entry ∈ job.graph.entries ++ call.created job :=
    grown_extended.entries ▸ List.mem_map_of_mem hn
  obtain hold | hcreated := List.mem_append.1 hentry
  · obtain ⟨m, hm, heq⟩ := List.mem_map.1 hold
    obtain ⟨hid, hdeps⟩ := Prod.mk.inj heq
    exact ⟨m, hm, hid, hdeps⟩
  · exact absurd (List.mem_map_of_mem hcreated) hnew

include hfresh in
theorem inherit_old (hreplaced : call.replaced = some old)
    (hn : n ∈ (inheritDependencies old (call.firstId job) (call.grown job)).nodes)
    (hnew : n.id ∉ call.createdIds job) : n ∈ (call.grown job).nodes := by
  have hfirst := firstId_mem job (newTasks_of_replaced hreplaced)
  have hnodup : (call.grown job).ids.Nodup := grown_ids ▸ hfresh
  rw [inherit_nodes hnodup (grown_ids ▸ List.mem_append_right _ hfirst)] at hn
  obtain ⟨m, hm, rfl⟩ := List.mem_map.1 hn
  split_ifs at hnew ⊢ with hid
  · exact absurd (hid ▸ hfirst) hnew
  · exact hm

include hjob hfresh in
theorem after_dependsOn
    (honce : ∀ old ∈ call.replaced, ∀ n ∈ job.graph.nodes, n.dependencies.count old ≤ 1) :
    (call.after job).graph.DependsOn a b ↔ call.Added job a b ∨ call.Kept job a b ∨
      a ∈ call.dependents job ∧ b = call.lastId job := by
  rw [after_graph]
  cases hreplaced : call.replaced with
  | none =>
    simp only [grown_dependsOn, Added, Kept, dependents, hreplaced]
    simp
    tauto
  | some old =>
    have hnodup : (call.grown job).ids.Nodup := grown_ids ▸ hfresh
    have hnew := firstId_mem job (newTasks_of_replaced hreplaced)
    have hfirst : call.firstId job ∈ (call.grown job).ids :=
      grown_ids ▸ List.mem_append_right _ hnew
    have hlabelled : (call.grown job).Labelled := grown_extended.labelled hjob.labelled
    rw [redirect_dependsOn ((inherit_sameNodes _ _ _).labelled hlabelled)
        (fun n hn hnot => by
          obtain ⟨m, hm, -, hdeps⟩ := grown_old (inherit_old hfresh hreplaced hn hnot) hnot
          exact hdeps ▸ honce old hreplaced m hm),
      inherit_dependsOn hlabelled hnodup hfirst, inherit_dependsOn hlabelled hnodup hfirst]
    simp only [grown_dependsOn]
    by_cases ha : a ∈ call.createdIds job
    · have hnot : ∀ c, ¬ job.graph.DependsOn a c := fun c h => not_created hfresh h.mem_ids ha
      by_cases hfirst' : a = call.firstId job
      · subst hfirst'
        simp [ha, hnot, Added, Kept, dependents, hreplaced, eq_comm]
      · simp [ha, hnot, hfirst', Added, Kept, dependents, hreplaced]
    · have hnot : ∀ c, ¬ call.Lists job a c := fun c h => ha (mem_createdIds_of_lists h)
      have hne : a ≠ call.firstId job := fun h => ha (h ▸ hnew)
      simp [ha, hnot, hne, Added, Kept, dependents, hreplaced, eq_comm, and_comm]

include hjob hfresh in
/-- The edges follow exactly if no old task lists the replaced one twice. -/
theorem after_edges_iff : (call.after job).graph.EdgesExact ↔
    ∀ old ∈ call.replaced, ∀ n ∈ job.graph.nodes, n.dependencies.count old ≤ 1 := by
  have hgrown : (call.grown job).EdgesExact := grown_extended.edgesExact hjob.edges
  rw [after_graph]
  cases hreplaced : call.replaced with
  | none => exact iff_of_true hgrown fun old h => by cases h
  | some old =>
    have hnodup : (call.grown job).ids.Nodup := grown_ids ▸ hfresh
    have hnew := firstId_mem job (newTasks_of_replaced hreplaced)
    have hfirst : call.firstId job ∈ (call.grown job).ids :=
      grown_ids ▸ List.mem_append_right _ hnew
    have hlabelled : (call.grown job).Labelled := grown_extended.labelled hjob.labelled
    have hinherit := (inherit_sameNodes old (call.firstId job) (call.grown job)).labelled hlabelled
    have hedges : (inheritDependencies old (call.firstId job) (call.grown job)).EdgesExact :=
      inherit_edges hlabelled hnodup hfirst hgrown
    constructor
    · intro h old' hold n hn
      obtain rfl := Option.some.inj hold
      by_contra htwice
      have hold : old ∈ job.graph.ids :=
        hjob.known n.id old ⟨n, hn, rfl, List.count_pos_iff.1 (by omega)⟩
      have hlast : call.lastId job ≠ old := fun heq =>
        not_created hfresh hold (heq ▸ lastId_mem job (newTasks_of_replaced hreplaced))
      have hid : n.id ∉ call.createdIds job := not_created hfresh (List.mem_map_of_mem hn)
      have hentry : n.entry ∈ (call.grown job).entries :=
        grown_extended.entries ▸ List.mem_append_left _ (List.mem_map_of_mem hn)
      obtain ⟨m, hm, heq⟩ := List.mem_map.1 hentry
      obtain ⟨hmid, hmdeps⟩ := Prod.mk.inj heq
      have hmem : m ∈ (inheritDependencies old (call.firstId job) (call.grown job)).nodes := by
        rw [inherit_nodes hnodup hfirst]
        exact List.mem_map.2 ⟨m, hm, if_neg fun heq : m.id = call.firstId job => hid
          (hmid.symm.trans heq ▸ hnew)⟩
      refine redirect_twice hinherit hlast hmem (hmid ▸ hid) ?_ h
      rw [hmdeps]
      omega
    · intro honce a b
      rw [redirect_edges, hedges a b, hedges a old, redirect_dependsOn hinherit fun n hn hnot => ?_]
      obtain ⟨m, hm, -, hdeps⟩ := grown_old (inherit_old hfresh hreplaced hn hnot) hnot
      exact hdeps ▸ honce old rfl m hm

end Fresh

end RepairCall

end Wazir.Jobs
