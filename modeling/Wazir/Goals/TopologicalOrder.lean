import Mathlib.Data.List.Dedup
import Mathlib.Order.WellFoundedSet
import Wazir.Goals.CyclesExact
import Wazir.Goals.GraphValidation
import Wazir.Goals.ValidGraphs
import Wazir.Shared.Lookups

/-! `topologicalOrder` in `graph/validation.ts`: the targets that are ready, the first in the order of
`byPriorityThenId` taken at each turn. -/

namespace Wazir.Goals

def GraphIssueCode.name : GraphIssueCode → String
  | .schema => "SCHEMA"
  | .duplicateTarget => "DUPLICATE_TARGET"
  | .unknownExecutor => "UNKNOWN_EXECUTOR"
  | .selfDependency => "SELF_DEPENDENCY"
  | .unknownDependency => "UNKNOWN_DEPENDENCY"
  | .cycle => "CYCLE"
  | .invalidLimit => "INVALID_LIMIT"

def GraphValidationIssue.toJson (issue : GraphValidationIssue) : Json :=
  .obj ([("code", .str issue.code.name), ("message", .str issue.message), ("path", .str issue.path)] ++
    issue.targetIds.toList.map fun ids => ("targetIds", .arr (ids.map .str)))

/-- Higher priority first, then id. -/
def byPriorityThenId (a b : GoalTarget) : Ordering :=
  (compare b.priority a.priority).then (compareStrings a.id b.id)

namespace Topological

/-- `new Map(entries)`: a key keeps its first place and takes its last value. -/
def mapOf {α : Type} (entries : List (TargetId × α)) : List (TargetId × α) :=
  entries.foldl (fun m e =>
    if e.1 ∈ m.map Prod.fst then m.map fun e' => if e'.1 = e.1 then e else e' else m ++ [e]) []

structure Turn where
  out : List GoalTarget
  /-- The dependencies that a target still waits for. -/
  remaining : List (TargetId × List TargetId)
  ready : List GoalTarget

section Loop

variable (byId : List (TargetId × GoalTarget))

/-- The turn of `next`, with the others that are ready. -/
def Turn.take (s : Turn) (next : GoalTarget) (ready : List GoalTarget) : Turn :=
  let remaining := s.remaining.filter fun e => e.1 ≠ next.id
  let freed := remaining.filter fun e => next.id ∈ e.2 ∧ e.2.filter (· ≠ next.id) = []
  { out := s.out ++ [next]
    remaining := remaining.map fun e => (e.1, e.2.filter (· ≠ next.id))
    ready := sortBy byPriorityThenId (ready ++ freed.filterMap fun e => byId.lookup e.1) }

def loop : ℕ → Turn → List GoalTarget
  | 0, s => s.out
  | fuel + 1, s =>
    match s.ready with
    | [] => s.out
    | next :: ready => loop fuel (s.take byId next ready)

end Loop

/-- A target is ready at the start or once it waits for nothing more. -/
def topoTargets (targets : List GoalTarget) : List GoalTarget :=
  loop (mapOf (targets.map fun t => (t.id, t))) (targets.length + targets.length)
    { out := []
      remaining := mapOf (targets.map fun t => (t.id, t.dependsOn.dedup))
      ready := sortBy byPriorityThenId (targets.filter fun t => t.dependsOn.length = 0) }

end Topological

open Topological

section Definitions

variable (localeCompare : String → String → Ordering)

def assertValid (definition : JsValue) : Except Thrown Unit :=
  match validateGoalGraph localeCompare definition with
  | [] => .ok ()
  | issue :: issues => fail .validation ("invalid goal graph: " ++ issue.message)
    [("issues", .arr ((issue :: issues).map GraphValidationIssue.toJson))]

/-- Deterministic topological order (dependencies first). -/
def topologicalOrder (definition : JsValue) : Except Thrown (List TargetId) := do
  assertValid localeCompare definition
  return (topoTargets (GoalGraphDefinition.ofJs definition).targets).map GoalTarget.id

end Definitions

namespace Topological

/-- The target `v` depends on `w`. -/
def Needs (targets : List GoalTarget) (v w : TargetId) : Prop :=
  ∃ t ∈ targets, t.id = v ∧ w ∈ t.dependsOn

/-- No id comes before one that it needs. -/
def DependenciesFirst (targets : List GoalTarget) (order : List TargetId) : Prop :=
  ∀ before v after, order = before ++ v :: after → ∀ w, Needs targets v w → w ∈ before

/-- The graphs that have an order. -/
structure Orderly (targets : List GoalTarget) : Prop where
  ids : (targets.map GoalTarget.id).Nodup
  known : ∀ v w, Needs targets v w → w ∈ targets.map GoalTarget.id
  wellFounded : WellFounded fun w v => Needs targets v w

theorem mapOf_of_nodup {α : Type} {entries : List (TargetId × α)}
    (h : (entries.map Prod.fst).Nodup) : mapOf entries = entries := by
  have hgeneral : ∀ m : List (TargetId × α), ((m ++ entries).map Prod.fst).Nodup →
      entries.foldl (fun m e => if e.1 ∈ m.map Prod.fst
        then m.map fun e' => if e'.1 = e.1 then e else e' else m ++ [e]) m = m ++ entries := by
    clear h
    induction entries with
    | nil => exact fun m _ => by simp
    | cons e entries ih =>
      intro m hm
      have hnot : e.1 ∉ m.map Prod.fst := fun hmem => by
        rw [List.map_append, List.nodup_append] at hm
        exact hm.2.2 _ hmem _ (by simp) rfl
      rw [List.foldl_cons, if_neg hnot, ih (m ++ [e]) (by simpa using hm)]
      simp
  simpa [mapOf] using hgeneral [] (by simpa using h)

section Order

variable {targets : List GoalTarget}

/-- What holds at each turn: what is out is in order, and what is ready waits for nothing that is
not. -/
structure TurnInv (targets : List GoalTarget) (s : Turn) : Prop where
  out_mem : ∀ t ∈ s.out, t ∈ targets
  out_nodup : (s.out.map GoalTarget.id).Nodup
  out_first : DependenciesFirst targets (s.out.map GoalTarget.id)
  remaining_eq : s.remaining = (targets.filter fun t => t.id ∉ s.out.map GoalTarget.id).map fun t =>
    (t.id, t.dependsOn.dedup.filter (· ∉ s.out.map GoalTarget.id))
  ready_mem : ∀ t, t ∈ s.ready ↔ t ∈ targets ∧ t.id ∉ s.out.map GoalTarget.id ∧
    ∀ d ∈ t.dependsOn, d ∈ s.out.map GoalTarget.id
  ready_nodup : s.ready.Nodup

theorem DependenciesFirst.concat {order : List TargetId} (h : DependenciesFirst targets order)
    {v : TargetId} (hv : ∀ w, Needs targets v w → w ∈ order) :
    DependenciesFirst targets (order ++ [v]) := by
  intro before x after he w hw
  rcases List.eq_nil_or_concat after with rfl | ⟨after, y, rfl⟩
  · obtain ⟨rfl, hx⟩ := List.append_inj' he rfl
    exact hv w ((List.cons.inj hx).1 ▸ hw)
  · rw [List.concat_eq_append, ← List.cons_append, ← List.append_assoc] at he
    exact h before x after (List.append_inj' he rfl).1 w hw

theorem filter_out {α : Type} [DecidableEq α] (l out : List α) (x : α) :
    (l.filter (· ∉ out)).filter (· ≠ x) = l.filter (· ∉ out ++ [x]) := by
  rw [List.filter_filter]
  refine List.filter_congr fun y _ => ?_
  simp [and_comm]

theorem filter_out_nil {t : GoalTarget} {out : List TargetId} :
    t.dependsOn.dedup.filter (· ∉ out) = [] ↔ ∀ d ∈ t.dependsOn, d ∈ out := by
  simp [List.filter_eq_nil_iff]

theorem lookup_target (hT : Orderly targets) {t : GoalTarget} (ht : t ∈ targets) :
    (targets.map fun t => (t.id, t)).lookup t.id = some t := by
  have hnd : ((targets.map fun t => (t.id, t)).map Prod.fst).Nodup := by
    simpa [Function.comp_def] using hT.ids
  exact (lookup_eq_some_mem hnd).2 (List.mem_map_of_mem ht)

/-- The targets that the turn of `next` frees. -/
theorem TurnInv.freed {s : Turn} (h : TurnInv targets s) (hT : Orderly targets) (next : GoalTarget) :
    (((s.remaining.filter fun e => e.1 ≠ next.id).filter fun e =>
      next.id ∈ e.2 ∧ e.2.filter (· ≠ next.id) = []).filterMap fun e =>
        (targets.map fun t => (t.id, t)).lookup e.1) =
      targets.filter fun t => t.id ∉ s.out.map GoalTarget.id ++ [next.id] ∧
        (next.id ∈ t.dependsOn ∧ next.id ∉ s.out.map GoalTarget.id) ∧
          ∀ d ∈ t.dependsOn, d ∈ s.out.map GoalTarget.id ++ [next.id] := by
  have hlookup : ∀ l : List GoalTarget, (∀ t ∈ l, t ∈ targets) →
      l.filterMap (fun t => (targets.map fun t => (t.id, t)).lookup t.id) = l := fun l hl => by
    rw [List.filterMap_congr fun t ht => lookup_target hT (hl t ht), List.filterMap_some]
  rw [h.remaining_eq, List.filter_map, List.filter_map, List.filterMap_map]
  refine (hlookup _ fun t ht => ?_).trans ?_
  · exact List.mem_of_mem_filter (List.mem_of_mem_filter (List.mem_of_mem_filter ht))
  · rw [List.filter_filter, List.filter_filter]
    refine List.filter_congr fun t _ => ?_
    simp only [Function.comp_apply, filter_out, filter_out_nil]
    simp only [List.mem_filter, List.mem_dedup, List.mem_append, List.mem_singleton, not_or]
    grind

theorem TurnInv.take {s : Turn} (h : TurnInv targets s) (hT : Orderly targets) {next : GoalTarget}
    {ready : List GoalTarget} (hr : s.ready = next :: ready) :
    TurnInv targets (s.take (targets.map fun t => (t.id, t)) next ready) := by
  obtain ⟨hnext, hnew, hdeps⟩ := (h.ready_mem next).1 (hr ▸ List.mem_cons_self)
  have hout : (s.take (targets.map fun t => (t.id, t)) next ready).out.map GoalTarget.id =
      s.out.map GoalTarget.id ++ [next.id] := by simp [Turn.take]
  have hneeds : ∀ w, Needs targets next.id w → w ∈ s.out.map GoalTarget.id := by
    rintro w ⟨t, ht, hid, hw⟩
    exact hdeps w (List.inj_on_of_nodup_map hT.ids ht hnext hid ▸ hw)
  constructor
  · intro t ht
    rcases List.mem_append.1 ht with ht | ht
    · exact h.out_mem t ht
    · exact List.mem_singleton.1 ht ▸ hnext
  · rw [hout, ← List.concat_eq_append, List.nodup_concat]
    exact ⟨hnew, h.out_nodup⟩
  · rw [hout]
    exact h.out_first.concat hneeds
  · rw [hout]
    show ((s.remaining.filter fun e => e.1 ≠ next.id).map fun e =>
      (e.1, e.2.filter (· ≠ next.id))) = _
    rw [h.remaining_eq, List.filter_map, List.map_map, List.filter_filter]
    have hfilter : ∀ t ∈ targets, (decide (t.id ∉ s.out.map GoalTarget.id ++ [next.id])) =
        (decide (t.id ≠ next.id) && decide (t.id ∉ s.out.map GoalTarget.id)) := fun t _ => by
      rw [← Bool.decide_and]
      refine decide_eq_decide.2 ?_
      rw [List.mem_append, List.mem_singleton, not_or, and_comm]
    rw [List.filter_congr hfilter]
    refine List.map_congr_left fun t _ => ?_
    simp only [Function.comp_apply, filter_out]
  · intro t
    rw [hout]
    show t ∈ sortBy byPriorityThenId (ready ++ _) ↔ _
    rw [mem_sortBy, List.mem_append, h.freed hT next, List.mem_filter, decide_eq_true_iff]
    have hready : t ∈ ready ↔ t ≠ next ∧ t ∈ s.ready := by
      rw [hr, List.mem_cons]
      have hnd := h.ready_nodup
      rw [hr, List.nodup_cons] at hnd
      grind
    have hid : t ∈ targets → (t = next ↔ t.id = next.id) := fun ht =>
      ⟨fun he => he ▸ rfl, fun he => List.inj_on_of_nodup_map hT.ids ht hnext he⟩
    rw [hready, h.ready_mem]
    simp only [List.mem_append, List.mem_singleton, not_or]
    grind
  · show (sortBy byPriorityThenId (ready ++ _)).Nodup
    rw [h.freed hT next]
    refine (List.perm_insertionSort _ _).nodup_iff.2 (List.nodup_append.2 ⟨?_, ?_, ?_⟩)
    · have hnd := h.ready_nodup
      rw [hr, List.nodup_cons] at hnd
      exact hnd.2
    · exact (List.Nodup.of_map _ hT.ids).filter _
    · rintro t ht t' ht' rfl
      have hready := (h.ready_mem t).1 (hr ▸ List.mem_cons_of_mem _ ht)
      rw [List.mem_filter, decide_eq_true_iff] at ht'
      exact ht'.2.2.1.2 (hready.2.2 _ ht'.2.2.1.1)

theorem turnInv_start (hT : Orderly targets) : TurnInv targets
    ⟨[], mapOf (targets.map fun t => (t.id, t.dependsOn.dedup)),
      sortBy byPriorityThenId (targets.filter fun t => t.dependsOn.length = 0)⟩ where
  out_mem := by simp
  out_nodup := List.nodup_nil
  out_first := fun before v after he => by simp at he
  remaining_eq := by
    rw [mapOf_of_nodup (by simpa [Function.comp_def] using hT.ids)]
    simp
  ready_mem t := by
    rw [mem_sortBy, List.mem_filter]
    simp [List.eq_nil_iff_forall_not_mem]
  ready_nodup := (List.perm_insertionSort _ _).nodup_iff.2 ((List.Nodup.of_map _ hT.ids).filter _)

/-- While a target is left, one is ready. -/
theorem TurnInv.all_out {s : Turn} (h : TurnInv targets s) (hT : Orderly targets)
    (hr : s.ready = []) {t : GoalTarget} (ht : t ∈ targets) : t ∈ s.out := by
  have hout : ∀ v, v ∈ targets.map GoalTarget.id → v ∈ s.out.map GoalTarget.id := by
    intro v
    induction v using hT.wellFounded.induction with
    | _ v ih =>
      intro hv
      obtain ⟨t, ht, rfl⟩ := List.mem_map.1 hv
      by_contra hnew
      refine absurd ((h.ready_mem t).2 ⟨ht, hnew, fun d hd => ?_⟩) (by simp [hr])
      exact ih d ⟨t, ht, rfl, hd⟩ (hT.known t.id d ⟨t, ht, rfl, hd⟩)
  obtain ⟨t', ht', hid⟩ := List.mem_map.1 (hout t.id (List.mem_map_of_mem ht))
  exact List.inj_on_of_nodup_map hT.ids (h.out_mem t' ht') ht hid ▸ ht'

theorem TurnInv.loop {s : Turn} (h : TurnInv targets s) (hT : Orderly targets) (fuel : ℕ)
    (hfuel : targets.length ≤ s.out.length + fuel) :
    (loop (targets.map fun t => (t.id, t)) fuel s).Perm targets ∧
      DependenciesFirst targets ((loop (targets.map fun t => (t.id, t)) fuel s).map GoalTarget.id) := by
  induction fuel generalizing s with
  | zero =>
    have hsub := List.subperm_of_subset (List.Nodup.of_map _ h.out_nodup) h.out_mem
    exact ⟨hsub.perm_of_length_le (by omega), h.out_first⟩
  | succ fuel ih =>
    rcases hr : s.ready with - | ⟨next, ready⟩
    · simp only [Topological.loop, hr]
      have hnodup := List.Nodup.of_map _ hT.ids
      exact ⟨(List.perm_ext_iff_of_nodup (List.Nodup.of_map _ h.out_nodup) hnodup).2 fun t =>
        ⟨h.out_mem t, h.all_out hT hr⟩, h.out_first⟩
    · simp only [Topological.loop, hr]
      refine ih (h.take hT hr) ?_
      simp only [Turn.take, List.length_append, List.length_singleton]
      omega

/-- The targets in an order that starts with what each of them needs. -/
theorem topoTargets_spec (hT : Orderly targets) :
    (topoTargets targets).Perm targets ∧
      DependenciesFirst targets ((topoTargets targets).map GoalTarget.id) := by
  have hmap : mapOf (targets.map fun t => (t.id, t)) = targets.map fun t => (t.id, t) :=
    mapOf_of_nodup (by simpa [Function.comp_def] using hT.ids)
  rw [topoTargets, hmap]
  exact (turnInv_start hT).loop hT _ (by omega)

end Order

section Accepted

open FindCycles (DependsOn ClosedWalk component)

variable {localeCompare : String → String → Ordering}

/-- A relation without cycles between finitely many nodes is well-founded. -/
theorem wellFounded_of_acyclic {depends : TargetId → TargetId → Prop} (ids : List TargetId)
    (hmem : ∀ v w, depends v w → v ∈ ids ∧ w ∈ ids)
    (hacyclic : ∀ v, ¬ Relation.TransGen depends v v) : WellFounded fun w v => depends v w := by
  have horder : IsStrictOrder TargetId fun w v => Relation.TransGen depends v w :=
    { irrefl := hacyclic, trans := fun _ _ _ h h' => h'.trans h }
  have hwf := Set.wellFoundedOn_iff.1 (Set.Finite.wellFoundedOn (List.finite_toSet ids)
    (r := fun w v => Relation.TransGen depends v w))
  exact Subrelation.wf (fun h => ⟨.single h, (hmem _ _ h).2, (hmem _ _ h).1⟩) hwf

theorem orderly_of_valid {d : JsValue} (h : validateGoalGraph localeCompare d = []) :
    Orderly (GoalGraphDefinition.ofJs d).targets := by
  obtain ⟨hids, hdeps, hcycles⟩ := valid_targets h
  set targets := (GoalGraphDefinition.ofJs d).targets
  have hmap : (targets.map GoalTarget.node).map TargetNode.id = targets.map GoalTarget.id := by
    simp [Function.comp_def, GoalTarget.node]
  have hknown : ∀ v w, Needs targets v w → w ≠ v ∧ w ∈ targets.map GoalTarget.id := by
    rintro v w ⟨t, ht, rfl, hw⟩
    exact hdeps t ht w hw
  have hdepends : ∀ v w, Needs targets v w → DependsOn (targets.map GoalTarget.node) v w := by
    rintro v w hneeds
    obtain ⟨hne, hw⟩ := hknown v w hneeds
    obtain ⟨t, ht, hid, hdep⟩ := hneeds
    exact ⟨t.node, List.mem_map_of_mem ht, hid, hdep, hne, hmap ▸ hw⟩
  refine ⟨hids, fun v w hw => (hknown v w hw).2,
    wellFounded_of_acyclic (targets.map GoalTarget.id) (fun v w hw => ?_) fun v hv => ?_⟩
  · obtain ⟨t, ht, rfl, -⟩ := id hw
    exact ⟨List.mem_map_of_mem ht, (hknown _ w hw).2⟩
  · exact (FindCycles.findCycles_nil localeCompare (hmap ▸ hids)).1 hcycles v
      (Relation.TransGen.mono hdepends v v hv)

/-- Cycles are found exactly, and what the validator accepts has an order. -/
theorem cycles_exact (localeCompare : String → String → Ordering) :
    (∀ targets : List TargetNode, (targets.map TargetNode.id).Nodup →
      (findCycles localeCompare targets = [] ↔
        ∀ v, ¬ Relation.TransGen (DependsOn targets) v v) ∧
      ∃ cs : List (Set TargetId), cs.Nodup ∧
        (∀ C, C ∈ cs ↔ C.Nontrivial ∧ ∃ v, C = component (DependsOn targets) v) ∧
        List.Forall₂ (ClosedWalk (DependsOn targets)) cs (findCycles localeCompare targets)) ∧
    ∀ d : JsValue, validateGoalGraph localeCompare d = [] →
      (WellFounded fun w v => Needs (GoalGraphDefinition.ofJs d).targets v w) ∧
      ∃ order, topologicalOrder localeCompare d = .ok order ∧
        order.Perm ((GoalGraphDefinition.ofJs d).targets.map GoalTarget.id) ∧
        DependenciesFirst (GoalGraphDefinition.ofJs d).targets order := by
  refine ⟨fun targets hids => ⟨FindCycles.findCycles_nil localeCompare hids,
    FindCycles.findCycles_exact localeCompare hids⟩, fun d hd => ?_⟩
  have horderly := orderly_of_valid hd
  obtain ⟨hperm, hfirst⟩ := topoTargets_spec horderly
  refine ⟨horderly.wellFounded, _, ?_, hperm.map GoalTarget.id, hfirst⟩
  simp only [topologicalOrder, assertValid, hd]
  rfl

end Accepted

end Topological

example : findCycles compareStrings [⟨"a", ["b"]⟩, ⟨"b", ["c", "a"]⟩, ⟨"c", []⟩] =
    [["a", "b", "a"]] := by decide

def limitsJs : JsValue :=
  .obj [("maxTasksPerRun", .nat 10), ("maxRepairsPerTask", .nat 1),
    ("maxSameActionNoProgress", .nat 1), ("maxRunMinutes", .nat 60), ("hostedSpendUsd", .nat 0),
    ("localModelFirst", .bool true), ("maxConcurrentWritersPerWorktree", .nat 1)]

def targetJs (id : TargetId) (dependsOn : List TargetId) : JsValue :=
  .obj [("id", .str id), ("stage", .str "one"), ("title", .str "T"),
    ("dependsOn", .arr (dependsOn.map .str)), ("priority", .nat 0), ("executor", .str "shell"),
    ("artifacts", .arr []), ("acceptance", .arr [.str "done"])]

def graphJs (targets : List JsValue) : JsValue :=
  .obj [("schemaVersion", .str "1"), ("name", .str "Small graph"),
    ("constitution", .obj [("objectiveOwner", .str "human"), ("invariants", .arr []),
      ("resourceLimits", limitsJs), ("allowedUnattended", .arr []), ("needsApproval", .arr [])]),
    ("executionGraph", .obj [("entry", .str "shell"),
      ("nodes", .arr [.obj [("id", .str "shell"), ("next", .arr [])]])]),
    ("targets", .arr targets)]

/-- Two targets, the first of which depends on the second. -/
def twoTargets : List JsValue := [targetJs "t" ["u"], targetJs "u" []]

example : validateGoalGraph compareStrings (graphJs twoTargets) = [] ∧
    (topologicalOrder compareStrings (graphJs twoTargets)).toOption = some ["u", "t"] := by decide

end Wazir.Goals
