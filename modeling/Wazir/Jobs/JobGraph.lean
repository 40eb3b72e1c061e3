import Wazir.Jobs.Job
import Wazir.Shared.CycleSearch
import Wazir.Shared.KeyedLists

/-! The graph of a job: `create` and `buildGraph` in `services/jobManager.ts`, and what a graph has
to keep. -/

namespace Wazir.Jobs

open Wazir.Core
open Rewiring (Acyclic)

/-! Creation. -/

/-- The ids of the tasks, each with its dependencies. An empty id is none. -/
def assignIds (jobId : String) : ℕ → List String → List JobTaskInput →
    Except String (List (String × List String))
  | _, _, [] => .ok []
  | i, seenIds, input :: rest =>
    match input.id.filter (· ≠ "") with
    | some id =>
      if id ∈ seenIds then .error ("Duplicate task id '" ++ id ++ "' in job")
      else (assignIds jobId (i + 1) (id :: seenIds) rest).map ((id, input.deps) :: ·)
    | none =>
      (assignIds jobId (i + 1) seenIds rest).map
        (("task-" ++ jobId ++ "-" ++ toString i, input.deps) :: ·)

def checkKnown (tasks : List (String × List String)) : Except String Unit :=
  tasks.forM fun t => t.2.forM fun dep =>
    if dep ∉ tasks.map Prod.fst then
      .error ("Task '" ++ t.1 ++ "' references nonexistent dependency '" ++ dep ++ "'")
    else .ok ()

/-- `tasks.find(t => t.task.id === nodeId)?.dependencies ?? []` -/
def dependenciesOf (tasks : List (String × List String)) (id : String) : List String :=
  ((tasks.find? (·.1 = id)).map Prod.snd).getD []

def cycleDetected (trace : List String) : String :=
  "Cycle detected in task dependencies: " ++ String.intercalate " -> " trace

def addNodes (isParent : JobNode → String → Bool) (graph : JobGraph)
    (tasks : List (String × List String)) : JobGraph :=
  tasks.foldl (fun graph t => addNode isParent graph t.1 t.2) graph

def buildGraph (tasks : List (String × List String)) : Except String JobGraph := do
  checkKnown tasks
  let _ ← CycleSearch.searchAll (dependenciesOf tasks) cycleDetected (tasks.map Prod.fst)
  return addNodes (fun n dep => n.id = dep) ⟨[], []⟩ tasks

def create (jobId : String) (now : ℤ) (maxRetries : Option ℕ) (inputs : List JobTaskInput) :
    Except String Job := do
  let tasks ← assignIds jobId 0 [] inputs
  let graph ← buildGraph tasks
  return {
    id := jobId
    revision := none
    control := none
    ownership := none
    status := .pending
    tasks := tasks.map fun t => ⟨t.1, .pending⟩
    graph := graph
    maxRetries := some (maxRetries.getD 3)
    createdAt := now
    startedAt := none
    completedAt := none }

/-! What a graph says. -/

def JobNode.entry (n : JobNode) : String × List String := (n.id, n.dependencies)

variable {a b : String} {graph : JobGraph}

namespace JobGraph

def entries (graph : JobGraph) : List (String × List String) := graph.nodes.map JobNode.entry

def ids (graph : JobGraph) : List String := graph.nodes.map JobNode.id

def states (graph : JobGraph) : List (String × AgentState) := graph.nodes.map fun n => (n.id, n.state)

def DependsOn (graph : JobGraph) (a b : String) : Prop :=
  ∃ n ∈ graph.nodes, n.id = a ∧ b ∈ n.dependencies

def Labelled (graph : JobGraph) : Prop := ∀ n ∈ graph.nodes, n.taskId = some n.id

/-- The edges are the pairs of a dependency and its node. -/
def EdgesExact (graph : JobGraph) : Prop :=
  ∀ a b, ⟨b, a⟩ ∈ graph.edges ↔ graph.DependsOn a b

theorem dependsOn_entries :
    graph.DependsOn a b ↔ ∃ ds, (a, ds) ∈ graph.entries ∧ b ∈ ds := by
  simp only [DependsOn, entries, List.mem_map, JobNode.entry, Prod.mk.injEq]
  constructor
  · rintro ⟨n, hn, rfl, hb⟩
    exact ⟨_, ⟨n, hn, rfl, rfl⟩, hb⟩
  · rintro ⟨_, ⟨n, hn, rfl, rfl⟩, hb⟩
    exact ⟨n, hn, rfl, hb⟩

theorem ids_entries (graph : JobGraph) : graph.ids = graph.entries.map Prod.fst := by
  simp [ids, entries, JobNode.entry]

theorem DependsOn.mem_ids (h : graph.DependsOn a b) :
    a ∈ graph.ids := by
  obtain ⟨n, hn, rfl, -⟩ := h
  exact List.mem_map_of_mem hn

end JobGraph

/-! Adding nodes. -/

theorem map_updateFirst {α β : Type} {p : α → Bool} {f : α → α} {g : α → β}
    (h : ∀ a, g (f a) = g a) (l : List α) : (updateFirst p f l).map g = l.map g := by
  induction l with
  | nil => rfl
  | cons a rest ih =>
    rw [updateFirst]
    split_ifs
    · rw [List.map_cons, List.map_cons, h]
    · rw [List.map_cons, List.map_cons, ih]

theorem mem_updateFirst {α : Type} {p : α → Bool} {f : α → α} {l : List α} {b : α}
    (h : b ∈ updateFirst p f l) : b ∈ l ∨ ∃ a ∈ l, b = f a := by
  induction l with
  | nil => exact .inl h
  | cons a rest ih =>
    rw [updateFirst] at h
    split_ifs at h
    · obtain rfl | h := List.mem_cons.1 h
      · exact .inr ⟨a, List.mem_cons_self, rfl⟩
      · exact .inl (List.mem_cons_of_mem a h)
    · obtain rfl | h := List.mem_cons.1 h
      · exact .inl List.mem_cons_self
      · obtain h | ⟨c, hc, rfl⟩ := ih h
        · exact .inl (List.mem_cons_of_mem a h)
        · exact .inr ⟨c, List.mem_cons_of_mem a hc, rfl⟩

def edgesOf (tasks : List (String × List String)) : List TaskGraphEdge :=
  tasks.flatMap fun t => t.2.map (⟨·, t.1⟩)

/-- What new nodes add to a graph. -/
structure Extended (graph : JobGraph) (tasks : List (String × List String)) (graph' : JobGraph) :
    Prop where
  entries : graph'.entries = graph.entries ++ tasks
  edges : graph'.edges = graph.edges ++ edgesOf tasks
  states : graph'.states = graph.states ++ tasks.map fun t => (t.1, .idle)
  labelled : graph.Labelled → graph'.Labelled

variable {tasks : List (String × List String)}

section Extended

variable {graph graph' : JobGraph} {tasks : List (String × List String)}

/-- The loop over the dependencies only adds edges and children. -/
theorem addNode_extended (isParent : JobNode → String → Bool) (graph : JobGraph) (taskId : String)
    (dependencies : List String) :
    Extended graph [(taskId, dependencies)] (addNode isParent graph taskId dependencies) := by
  have hloop : ∀ (ds : List String) (g : JobGraph),
      let g' := ds.foldl (fun graph dep =>
        { nodes := updateFirst (isParent · dep) (fun n =>
            if taskId ∈ n.children then n else { n with children := n.children ++ [taskId] })
            graph.nodes
          edges := graph.edges ++ [⟨dep, taskId⟩] }) g
      g'.entries = g.entries ∧ g'.edges = g.edges ++ ds.map (⟨·, taskId⟩) ∧ g'.states = g.states ∧
        (g.Labelled → g'.Labelled) := by
    intro ds
    induction ds with
    | nil => exact fun g => ⟨rfl, (List.append_nil _).symm, rfl, id⟩
    | cons dep ds ih =>
      intro g
      obtain ⟨hentries, hedges, hstates, hlabelled⟩ := ih
        { nodes := updateFirst (isParent · dep) (fun n =>
            if taskId ∈ n.children then n else { n with children := n.children ++ [taskId] }) g.nodes
          edges := g.edges ++ [⟨dep, taskId⟩] }
      refine ⟨hentries.trans ?_, hedges.trans ?_, hstates.trans ?_, fun h => hlabelled ?_⟩
      · exact map_updateFirst (fun n => by split_ifs <;> rfl) g.nodes
      · simp
      · exact map_updateFirst (fun n => by split_ifs <;> rfl) g.nodes
      · intro n hn
        obtain hn | ⟨m, hm, rfl⟩ := mem_updateFirst hn
        · exact h n hn
        · have hlabel := h m hm
          split_ifs <;> exact hlabel
  obtain ⟨hentries, hedges, hstates, hlabelled⟩ := hloop dependencies
    { graph with nodes := graph.nodes ++ [newNode taskId dependencies] }
  refine ⟨hentries.trans ?_, hedges.trans ?_, hstates.trans ?_, fun h => hlabelled ?_⟩
  · simp [JobGraph.entries, JobNode.entry, newNode]
  · simp [edgesOf]
  · simp [JobGraph.states, newNode]
  · intro n hn
    obtain hn | hn := List.mem_append.1 hn
    · exact h n hn
    · obtain rfl := List.mem_singleton.1 hn
      rfl

theorem Extended.trans {graph₁ : JobGraph} {more : List (String × List String)}
    (h : Extended graph tasks graph₁) (h' : Extended graph₁ more graph') :
    Extended graph (tasks ++ more) graph' where
  entries := by rw [h'.entries, h.entries, List.append_assoc]
  edges := by rw [h'.edges, h.edges, edgesOf, edgesOf, edgesOf, List.flatMap_append, List.append_assoc]
  states := by rw [h'.states, h.states, List.map_append, List.append_assoc]
  labelled := fun hl => h'.labelled (h.labelled hl)

theorem Extended.refl (graph : JobGraph) : Extended graph [] graph where
  entries := (List.append_nil _).symm
  edges := (List.append_nil _).symm
  states := (List.append_nil _).symm
  labelled := id

theorem addNodes_extended (isParent : JobNode → String → Bool) (graph : JobGraph)
    (tasks : List (String × List String)) : Extended graph tasks (addNodes isParent graph tasks) := by
  induction tasks generalizing graph with
  | nil => exact Extended.refl graph
  | cons t tasks ih => exact (addNode_extended isParent graph t.1 t.2).trans (ih _)

theorem Extended.dependsOn (h : Extended graph tasks graph') :
    graph'.DependsOn a b ↔ graph.DependsOn a b ∨ ∃ ds, (a, ds) ∈ tasks ∧ b ∈ ds := by
  simp only [JobGraph.dependsOn_entries, h.entries, List.mem_append, or_and_right, exists_or]

theorem mem_edgesOf :
    ⟨b, a⟩ ∈ edgesOf tasks ↔ ∃ ds, (a, ds) ∈ tasks ∧ b ∈ ds := by
  simp only [edgesOf, List.mem_flatMap, List.mem_map, TaskGraphEdge.mk.injEq, Prod.exists]
  constructor
  · rintro ⟨c, ds, hmem, d, hd, rfl, rfl⟩
    exact ⟨ds, hmem, hd⟩
  · rintro ⟨ds, hmem, hb⟩
    exact ⟨a, ds, hmem, b, hb, rfl, rfl⟩

theorem Extended.edgesExact (h : Extended graph tasks graph') (hgraph : graph.EdgesExact) :
    graph'.EdgesExact := by
  intro a b
  rw [h.edges, List.mem_append, hgraph a b, mem_edgesOf, h.dependsOn]

theorem Extended.ids (h : Extended graph tasks graph') :
    graph'.ids = graph.ids ++ tasks.map Prod.fst := by
  rw [JobGraph.ids_entries, h.entries, List.map_append, ← JobGraph.ids_entries]

end Extended

/-! What creation accepts. -/

/-- A job whose tasks and nodes are the same, and whose dependencies lead nowhere else and not in a
circle. -/
structure Job.Sound (job : Job) : Prop where
  labelled : job.graph.Labelled
  tasks : job.tasks.map Task.id = job.graph.ids
  edges : job.graph.EdgesExact
  known : ∀ a b, job.graph.DependsOn a b → b ∈ job.graph.ids
  acyclic : job.graph.ids.Nodup → Acyclic job.graph.DependsOn

theorem forM_ok {α ε : Type} {f : α → Except ε Unit} {l : List α} (h : l.forM f = .ok ()) :
    ∀ a ∈ l, f a = .ok () := by
  induction l with
  | nil => exact fun a ha => absurd ha List.not_mem_nil
  | cons b rest ih =>
    obtain ⟨⟨⟩, hb, hrest⟩ := except_bind_eq_ok.1 h
    intro a ha
    obtain rfl | ha := List.mem_cons.1 ha
    · exact hb
    · exact ih hrest a ha

theorem checkKnown_ok (h : checkKnown tasks = .ok ()) :
    ∀ t ∈ tasks, ∀ dep ∈ t.2, dep ∈ tasks.map Prod.fst := by
  intro t ht dep hdep
  have hcheck := forM_ok (forM_ok h t ht) dep hdep
  split_ifs at hcheck with hmem
  exact hmem

theorem dependenciesOf_mem (h : b ∈ dependenciesOf tasks a) : ∃ ds, (a, ds) ∈ tasks ∧ b ∈ ds := by
  unfold dependenciesOf at h
  cases hfind : tasks.find? (·.1 = a) with
  | none => simp [hfind] at h
  | some t =>
    have ha : t.1 = a := by simpa using List.find?_some hfind
    exact ⟨t.2, ha ▸ List.mem_of_find?_eq_some hfind, by simpa [hfind] using h⟩

/-- With distinct ids the first task of an id is the only one. -/
theorem mem_dependenciesOf (hnodup : (tasks.map Prod.fst).Nodup) {ds : List String}
    (hmem : (a, ds) ∈ tasks) (hb : b ∈ ds) : b ∈ dependenciesOf tasks a := by
  have hfind : tasks.find? (fun t => t.1 = a) = some (a, ds) :=
    (find_key_eq_some hnodup).2 ⟨hmem, rfl⟩
  simpa [dependenciesOf, hfind] using hb

theorem Extended.dependsOn_empty (h : Extended ⟨[], []⟩ tasks graph) :
    graph.DependsOn a b ↔ ∃ ds, (a, ds) ∈ tasks ∧ b ∈ ds := by
  rw [h.dependsOn]
  exact or_iff_right fun ⟨n, hn, _⟩ => absurd hn List.not_mem_nil

/-- The search looks tasks up by id, so it says nothing where two tasks share one. -/
theorem buildGraph_ok (h : buildGraph tasks = .ok graph) :
    Extended ⟨[], []⟩ tasks graph ∧ (∀ t ∈ tasks, ∀ dep ∈ t.2, dep ∈ tasks.map Prod.fst) ∧
      ((tasks.map Prod.fst).Nodup → Acyclic graph.DependsOn) := by
  obtain ⟨⟨⟩, hknown, h⟩ := except_bind_eq_ok.1 h
  obtain ⟨s, hsearch, h⟩ := except_bind_eq_ok.1 h
  obtain rfl := Except.ok.inj h
  have hext := addNodes_extended (fun n dep => n.id = dep) ⟨[], []⟩ tasks
  refine ⟨hext, checkKnown_ok hknown, fun hnodup => ?_⟩
  have hroots : ∀ a, ∀ b ∈ dependenciesOf tasks a, a ∈ tasks.map Prod.fst := fun a b hb => by
    obtain ⟨ds, hmem, -⟩ := dependenciesOf_mem hb
    exact List.mem_map_of_mem hmem
  have hclosed : ∀ a, ∀ b ∈ dependenciesOf tasks a, b ∈ tasks.map Prod.fst := fun a b hb => by
    obtain ⟨ds, hmem, hb⟩ := dependenciesOf_mem hb
    exact checkKnown_ok hknown _ hmem b hb
  refine (CycleSearch.searchAll_acyclic hroots hclosed hsearch).mono fun a b hab => ?_
  obtain ⟨ds, hmem, hb⟩ := hext.dependsOn_empty.1 hab
  exact mem_dependenciesOf hnodup hmem hb

theorem create_sound {jobId : String} {now : ℤ} {maxRetries : Option ℕ} {inputs : List JobTaskInput}
    {job : Job} (h : create jobId now maxRetries inputs = .ok job) : job.Sound := by
  obtain ⟨tasks, -, h⟩ := except_bind_eq_ok.1 h
  obtain ⟨graph, hgraph, h⟩ := except_bind_eq_ok.1 h
  obtain rfl := Except.ok.inj h
  obtain ⟨hext, hknown, hacyclic⟩ := buildGraph_ok hgraph
  have hids : graph.ids = tasks.map Prod.fst := hext.ids
  refine ⟨hext.labelled fun n hn => absurd hn List.not_mem_nil, ?_, hext.edgesExact ?_, ?_, ?_⟩
  · simp [hids, Function.comp_def]
  · exact fun a b => iff_of_false List.not_mem_nil fun ⟨n, hn, _⟩ => absurd hn List.not_mem_nil
  · intro a b hab
    obtain ⟨ds, hmem, hb⟩ := hext.dependsOn_empty.1 hab
    exact hids ▸ hknown _ hmem b hb
  · exact fun hnodup => hacyclic (hids ▸ hnodup)

end Wazir.Jobs
