import Mathlib.Data.List.Perm.Basic
import Mathlib.Data.Set.Subsingleton
import Wazir.Goals.CyclePaths
import Wazir.Shared.KeyedLists

/-! What `findCycles` tells of the dependency relation: its closed walks are one for each strongly
connected component with more than one member. -/

namespace Wazir.Goals

namespace FindCycles

open Scc (Edge Reach Components)

/-- The dependencies between known targets, without those of a target on itself. -/
def DependsOn (targets : List TargetNode) (v w : TargetId) : Prop :=
  ∃ t ∈ targets, t.id = v ∧ w ∈ t.dependsOn ∧ w ≠ v ∧ w ∈ targets.map TargetNode.id

/-- The nodes that reach `v` and that it reaches. -/
def component (depends : TargetId → TargetId → Prop) (v : TargetId) : Set TargetId :=
  {w | Relation.ReflTransGen depends v w ∧ Relation.ReflTransGen depends w v}

theorem component_eq {depends : TargetId → TargetId → Prop} {v w : TargetId}
    (h : w ∈ component depends v) : component depends w = component depends v :=
  Set.ext fun _ => ⟨fun hx => ⟨h.1.trans hx.1, hx.2.trans h.2⟩,
    fun hx => ⟨h.2.trans hx.1, hx.2.trans h.1⟩⟩

theorem mem_component_self (depends : TargetId → TargetId → Prop) (v : TargetId) :
    v ∈ component depends v := ⟨.refl, .refl⟩

section Ids

theorem distinctIds_spec (targets : List TargetNode) :
    (distinctIds targets).Nodup ∧ ∀ id, id ∈ distinctIds targets ↔ id ∈ targets.map TargetNode.id := by
  have hgeneral : ∀ ids : List TargetId, ids.Nodup →
      (targets.foldl (fun ids t => if t.id ∈ ids then ids else ids ++ [t.id]) ids).Nodup ∧
        ∀ id, id ∈ targets.foldl (fun ids t => if t.id ∈ ids then ids else ids ++ [t.id]) ids ↔
          id ∈ ids ∨ id ∈ targets.map TargetNode.id := by
    induction targets with
    | nil => exact fun ids h => ⟨h, fun id => by simp⟩
    | cons t targets ih =>
      intro ids h
      simp only [List.foldl_cons, List.map_cons, List.mem_cons]
      split_ifs with ht
      · refine ⟨(ih ids h).1, fun id => ((ih ids h).2 id).trans ⟨fun hid => ?_, fun hid => ?_⟩⟩
        · exact hid.imp_right .inr
        · rcases hid with hid | rfl | hid
          · exact .inl hid
          · exact .inl ht
          · exact .inr hid
      · have hnd : (ids ++ [t.id]).Nodup := by
          rw [← List.concat_eq_append, List.nodup_concat]
          exact ⟨ht, h⟩
        refine ⟨(ih _ hnd).1, fun id => ((ih _ hnd).2 id).trans ?_⟩
        simp [or_assoc]
  exact ⟨(hgeneral [] List.nodup_nil).1, fun id => by
    simpa [distinctIds] using (hgeneral [] List.nodup_nil).2 id⟩

variable {targets : List TargetNode}

theorem edgesOf_of_mem (hids : (targets.map TargetNode.id).Nodup) {t : TargetNode}
    (ht : t ∈ targets) :
    edgesOf targets t.id = t.dependsOn.filter fun d => d ≠ t.id ∧ d ∈ distinctIds targets := by
  have hrev : (targets.reverse.map TargetNode.id).Nodup := by
    rw [List.map_reverse]
    exact List.nodup_reverse.2 hids
  have hfind : targets.reverse.find? (fun t' => t'.id = t.id) = some t :=
    (find_key_eq_some hrev).2 ⟨List.mem_reverse.2 ht, rfl⟩
  simp only [edgesOf, hfind]

theorem edge_iff (hids : (targets.map TargetNode.id).Nodup) {v w : TargetId} :
    Edge (edgesOf targets) v w ↔ DependsOn targets v w := by
  constructor
  · intro h
    rcases hfind : targets.reverse.find? fun t => t.id = v with - | t
    · simp [Edge, edgesOf, hfind] at h
    · have ht : t ∈ targets := List.mem_reverse.1 (List.mem_of_find?_eq_some hfind)
      obtain rfl : t.id = v := by simpa using List.find?_some hfind
      rw [Edge, edgesOf_of_mem hids ht, List.mem_filter, decide_eq_true_iff] at h
      exact ⟨t, ht, rfl, h.1, h.2.1, ((distinctIds_spec targets).2 w).1 h.2.2⟩
  · rintro ⟨t, ht, rfl, hw, hne, hknown⟩
    rw [Edge, edgesOf_of_mem hids ht, List.mem_filter, decide_eq_true_iff]
    exact ⟨hw, hne, ((distinctIds_spec targets).2 w).2 hknown⟩

theorem edges_known (v : TargetId) : ∀ w ∈ edgesOf targets v, w ∈ distinctIds targets := by
  intro w hw
  unfold edgesOf at hw
  split at hw
  · exact absurd hw List.not_mem_nil
  · have hw := (List.mem_filter.1 hw).2
    rw [decide_eq_true_iff] at hw
    exact hw.2

theorem mem_nontrivial_component {v : TargetId}
    (h : (component (DependsOn targets) v).Nontrivial) : v ∈ distinctIds targets := by
  obtain ⟨w, hw, hne⟩ := h.exists_ne v
  rcases Relation.ReflTransGen.cases_head hw.1 with rfl | ⟨x, ⟨t, ht, rfl, -⟩, -⟩
  · exact absurd rfl hne
  · exact ((distinctIds_spec targets).2 _).2 (List.mem_map_of_mem ht)

end Ids

section Cycles

variable {targets : List TargetNode}

theorem component_acyclic :
    (∀ v, ¬ (component (DependsOn targets) v).Nontrivial) ↔
      ∀ v, ¬ Relation.TransGen (DependsOn targets) v v := by
  refine forall_congr' fun v => not_congr ⟨fun h => ?_, fun h => ?_⟩
  · obtain ⟨w, hw, hne⟩ := h.exists_ne v
    rcases Relation.reflTransGen_iff_eq_or_transGen.1 hw.1 with rfl | hvw
    · exact absurd rfl hne
    · exact hvw.trans_left hw.2
  · obtain ⟨w, hvw, hwv⟩ := Relation.TransGen.head'_iff.1 h
    obtain ⟨t, ht, hid, hmem, hne, hknown⟩ := hvw
    exact ⟨v, mem_component_self _ v, w, ⟨.single ⟨t, ht, hid, hmem, hne, hknown⟩, hwv⟩, hne.symm⟩

/-- The components that are gone over, as sets: each nontrivial one once. -/
theorem components_exact (hids : (targets.map TargetNode.id).Nodup) :
    ∃ cs : List (Set TargetId), cs.Nodup ∧
      (∀ C, C ∈ cs ↔ C.Nontrivial ∧ ∃ v, C = component (DependsOn targets) v) ∧
      List.Forall₂ (ClosedWalk (DependsOn targets))
        cs ((components (edgesOf targets) (distinctIds targets)).map
          (cycleIn (edgesOf targets))) := by
  have hedge : Edge (edgesOf targets) = DependsOn targets :=
    funext₂ fun v w => propext (edge_iff hids)
  obtain ⟨closed, hc, hcomponents⟩ := components_spec (distinctIds_spec targets).1
    fun v _ => @edges_known targets v
  have hscc : ∀ c ∈ closed, ∃ r ∈ c, {x | x ∈ c} = component (DependsOn targets) r := fun c hmem => by
    obtain ⟨-, r, hr, hx⟩ := hc.scc c hmem
    rw [← hedge]
    exact ⟨r, hr, Set.ext hx⟩
  have hnontrivial : ∀ c ∈ closed, 1 < c.length ↔ {x | x ∈ c}.Nontrivial := fun c hmem => by
    obtain ⟨hnd, r, hr, -⟩ := hc.scc c hmem
    constructor
    · intro hlen
      have hcard : 1 < c.toFinset.card := by rwa [List.toFinset_card_of_nodup hnd]
      obtain ⟨x, hx, y, hy, hne⟩ := Finset.one_lt_card.1 hcard
      exact ⟨x, List.mem_toFinset.1 hx, y, List.mem_toFinset.1 hy, hne⟩
    · rintro ⟨x, hx, y, hy, hne⟩
      have hcard := Finset.one_lt_card.2
        ⟨x, List.mem_toFinset.2 hx, y, List.mem_toFinset.2 hy, hne⟩
      rwa [List.toFinset_card_of_nodup hnd] at hcard
  rw [hcomponents]
  refine ⟨(closed.filter fun c => 1 < c.length).map fun c => {x | x ∈ c}, ?_, fun C => ?_, ?_⟩
  · -- disjoint lists with members are different sets
    rw [List.Nodup, List.pairwise_map]
    refine (hc.apart.filter _).imp_of_mem fun {c c'} hmem _ hapart he => ?_
    obtain ⟨-, r, hr, -⟩ := hc.scc c (List.mem_of_mem_filter hmem)
    exact hapart hr (Set.ext_iff.1 he r |>.1 hr)
  · simp only [List.mem_map, List.mem_filter, decide_eq_true_iff]
    constructor
    · rintro ⟨c, ⟨hmem, hlen⟩, rfl⟩
      obtain ⟨r, -, he⟩ := hscc c hmem
      exact ⟨(hnontrivial c hmem).1 hlen, r, he⟩
    · rintro ⟨hC, v, rfl⟩
      obtain ⟨c, hmem, hv⟩ := (hc.mem_iff v).2 (mem_nontrivial_component hC)
      obtain ⟨r, -, he⟩ := hscc c hmem
      have hcv : {x | x ∈ c} = component (DependsOn targets) v := by
        have hvr : v ∈ component (DependsOn targets) r := he ▸ hv
        rw [he, component_eq hvr]
      exact ⟨c, ⟨hmem, (hnontrivial c hmem).2 (hcv ▸ hC)⟩, hcv⟩
  · rw [List.forall₂_map_left_iff, List.forall₂_map_right_iff, List.forall₂_same]
    intro c hmem
    obtain ⟨hmem, hlen⟩ := List.mem_filter.1 hmem
    obtain ⟨hnd, r, hr, hx⟩ := hc.scc c hmem
    exact hedge ▸ cycleIn_spec hnd (of_decide_eq_true hlen) hx

theorem findCycles_exact (localeCompare : String → String → Ordering)
    (hids : (targets.map TargetNode.id).Nodup) :
    ∃ cs : List (Set TargetId), cs.Nodup ∧
      (∀ C, C ∈ cs ↔ C.Nontrivial ∧ ∃ v, C = component (DependsOn targets) v) ∧
      List.Forall₂ (ClosedWalk (DependsOn targets)) cs (findCycles localeCompare targets) := by
  obtain ⟨cs, hnd, hcs, hwalks⟩ := components_exact hids
  have hperm := (List.perm_insertionSort (fun a b : List TargetId =>
    localeCompare (a.headD "") (b.headD "") ≠ .gt) ((components (edgesOf targets)
      (distinctIds targets)).map (cycleIn (edgesOf targets)))).symm
  obtain ⟨cs', hcs', hwalks'⟩ : (Relation.Comp List.Perm
      (List.Forall₂ (ClosedWalk (DependsOn targets)))) cs (findCycles localeCompare targets) := by
    rw [← List.forall₂_comp_perm_eq_perm_comp_forall₂]
    exact ⟨_, hwalks, hperm⟩
  exact ⟨cs', hcs'.nodup_iff.1 hnd, fun C => hcs'.mem_iff.symm.trans (hcs C), hwalks'⟩

theorem findCycles_nil (localeCompare : String → String → Ordering)
    (hids : (targets.map TargetNode.id).Nodup) :
    findCycles localeCompare targets = [] ↔
      ∀ v, ¬ Relation.TransGen (DependsOn targets) v v := by
  obtain ⟨cs, -, hcs, hwalks⟩ := findCycles_exact localeCompare hids
  rw [← component_acyclic, ← List.length_eq_zero_iff, ← hwalks.length_eq, List.length_eq_zero_iff]
  constructor
  · rintro rfl v hv
    exact absurd ((hcs _).2 ⟨hv, v, rfl⟩) List.not_mem_nil
  · intro h
    refine List.eq_nil_iff_forall_not_mem.2 fun C hC => ?_
    obtain ⟨hn, v, rfl⟩ := (hcs C).1 hC
    exact h v hn

end Cycles

end FindCycles

end Wazir.Goals
