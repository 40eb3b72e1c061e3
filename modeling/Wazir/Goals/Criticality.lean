import Mathlib.Data.Set.Card
import Wazir.Goals.Eligibility
import Wazir.Goals.TopologicalOrder
import Wazir.Shared.OwnProperties

/-! What the critical-path metrics of `computeCriticality` count, and the order that `compareTargets`
takes targets in. -/

namespace Wazir.Goals

/-! Chains of a relation. -/

section Chains

variable {α : Type} {r : α → α → Prop}

/-- The lengths of the chains that start from `a`, without `a`. -/
def chainLengths (r : α → α → Prop) (a : α) : Set ℕ := {n | ∃ p, (a :: p).IsChain r ∧ p.length = n}

/-- The longest chain goes through a successor, if there is one. -/
theorem chainLengths_eq (a : α) :
    chainLengths r a = insert 0 {n | ∃ b, r a b ∧ ∃ m ∈ chainLengths r b, n = 1 + m} := by
  ext n
  constructor
  · rintro ⟨p, hp, rfl⟩
    cases p with
    | nil => exact Or.inl rfl
    | cons b rest =>
      obtain ⟨hab, hrest⟩ := List.isChain_cons_cons.mp hp
      exact Or.inr ⟨b, hab, rest.length, ⟨rest, hrest, rfl⟩, Nat.add_comm _ _⟩
  · rintro (rfl | ⟨b, hab, m, ⟨p, hp, rfl⟩, rfl⟩)
    · exact ⟨[], .singleton a, rfl⟩
    · exact ⟨b :: p, List.isChain_cons_cons.mpr ⟨hab, hp⟩, Nat.add_comm _ _⟩

/-- One more than the best of the successors, taken from a list of them. -/
def Best (r : α → α → Prop) (ds : List α) (from' best : ℕ) : Prop :=
  IsGreatest (insert from' {n | ∃ d ∈ ds, ∃ m, IsGreatest (chainLengths r d) m ∧ n = 1 + m}) best

theorem Best.nil (n : ℕ) : Best r [] n n := by
  refine ⟨Set.mem_insert _ _, ?_⟩
  rintro m (rfl | ⟨d, hd, -⟩)
  · exact le_rfl
  · cases hd

theorem Best.cons {d : α} {ds : List α} {n m best : ℕ} (hd : IsGreatest (chainLengths r d) m)
    (h : Best r ds (max n (1 + m)) best) : Best r (d :: ds) n best := by
  constructor
  · rcases h.1 with hbest | ⟨e, he, k, hk, rfl⟩
    · rcases max_cases n (1 + m) with ⟨heq, -⟩ | ⟨heq, -⟩
      · exact Or.inl (hbest.trans heq)
      · exact Or.inr ⟨d, List.mem_cons_self, m, hd, hbest.trans heq⟩
    · exact Or.inr ⟨e, List.mem_cons_of_mem d he, k, hk, rfl⟩
  · have hmax : max n (1 + m) ≤ best := h.2 (Set.mem_insert _ _)
    rintro k (rfl | ⟨e, he, j, hj, rfl⟩)
    · exact (le_max_left _ _).trans hmax
    · rcases List.mem_cons.mp he with rfl | he
      · rw [hj.unique hd]
        exact (le_max_right _ _).trans hmax
      · exact h.2 (Or.inr ⟨e, he, j, hj, rfl⟩)

theorem Best.greatest {a : α} {ds : List α} (hds : ∀ b, b ∈ ds ↔ r a b)
    (hall : ∀ b ∈ ds, ∃ m, IsGreatest (chainLengths r b) m) {best : ℕ} (h : Best r ds 0 best) :
    IsGreatest (chainLengths r a) best := by
  rw [chainLengths_eq]
  constructor
  · rcases h.1 with hbest | ⟨d, hd, m, hm, rfl⟩
    · exact Or.inl hbest
    · exact Or.inr ⟨d, (hds d).mp hd, m, hm.1, rfl⟩
  · rintro n (rfl | ⟨b, hab, m, hm, rfl⟩)
    · exact Nat.zero_le _
    · obtain ⟨k, hk⟩ := hall b ((hds b).mpr hab)
      have hbest : 1 + k ≤ best := h.2 (Or.inr ⟨b, (hds b).mpr hab, k, hk, rfl⟩)
      have hmk : m ≤ k := hk.2 hm
      omega

end Chains

open Topological (Needs)

variable {memo : Table TargetId ℕ} {pops : ℕ}

section Graph

variable {targets : List GoalTarget}

theorem mem_dependentsOf {id d : TargetId} : d ∈ dependentsOf targets id ↔ Needs targets d id := by
  rw [dependentsOf, mem_sortBy, List.mem_flatMap]
  constructor
  · rintro ⟨t, ht, hd⟩
    obtain ⟨dep, hdep, rfl⟩ := List.mem_map.mp hd
    obtain ⟨hmem, heq⟩ := List.mem_filter.mp hdep
    obtain rfl : dep = id := by simpa using heq
    exact ⟨t, ht, rfl, hmem⟩
  · rintro ⟨t, ht, rfl, hmem⟩
    exact ⟨t, ht, List.mem_map.mpr ⟨id, List.mem_filter.mpr ⟨hmem, by simp⟩, rfl⟩⟩

theorem needs_target {d id : TargetId} (h : Needs targets d id) : d ∈ targets.map GoalTarget.id := by
  obtain ⟨t, ht, rfl, -⟩ := h
  exact List.mem_map_of_mem ht

/-- The targets that depend on `id`, over any number of steps. -/
def dependents (targets : List GoalTarget) (id : TargetId) : Set TargetId :=
  {d | Relation.TransGen (Needs targets) d id}

/-- The length of the longest chain of dependents of `id`. -/
def LongestChain (targets : List GoalTarget) (id : TargetId) (n : ℕ) : Prop :=
  IsGreatest (chainLengths (fun a b => Needs targets b a) id) n

/-! The recursion. -/

/-- Whatever is remembered is right. -/
def MemoSound (targets : List GoalTarget) (memo : Table TargetId ℕ) : Prop :=
  ∀ id n, memo.lookup id = some n → LongestChain targets id n

theorem MemoSound.insert (h : MemoSound targets memo) {id : TargetId} {n : ℕ}
    (hn : LongestChain targets id n) : MemoSound targets (memo.insert id n) := by
  intro id' m hm
  by_cases hid : id' = id
  · subst hid
    rw [AList.lookup_insert] at hm
    exact Option.some.inj hm ▸ hn
  · rw [AList.lookup_insert_ne hid] at hm
    exact h id' m hm

/-- The loop over the dependents of one target. -/
theorem chain_loop {fuel : ℕ} {stack : List TargetId} {ds : List TargetId}
    (hbelow : ∀ d ∈ ds, ∀ memo, MemoSound targets memo →
      LongestChain targets d (chain targets fuel d stack memo).1 ∧
        MemoSound targets (chain targets fuel d stack memo).2) {n : ℕ}
    (hmemo : MemoSound targets memo) :
    let out := ds.foldl (fun acc d =>
      let below := chain targets fuel d stack acc.2
      (max acc.1 (1 + below.1), below.2)) (n, memo)
    Best (fun a b => Needs targets b a) ds n out.1 ∧ MemoSound targets out.2 := by
  induction ds generalizing n memo with
  | nil => exact ⟨Best.nil n, hmemo⟩
  | cons d rest ih =>
    obtain ⟨hd, hmemo'⟩ := hbelow d List.mem_cons_self memo hmemo
    obtain ⟨hbest, hout⟩ := ih (fun e he => hbelow e (List.mem_cons_of_mem d he))
      (n := max n (1 + (chain targets fuel d stack memo).1)) hmemo'
    exact ⟨Best.cons hd hbest, hout⟩

variable (hacyclic : ∀ id, ¬ Relation.TransGen (Needs targets) id id)

include hacyclic

/-- The stack holds distinct targets that `id` depends on, so that no target is met twice and the fuel
lasts. -/
theorem chain_spec (fuel : ℕ) {id : TargetId} {stack : List TargetId}
    (hid : id ∈ targets.map GoalTarget.id) (hmemo : MemoSound targets memo)
    (hstack : ∀ s ∈ stack, Relation.TransGen (Needs targets) id s)
    (hsub : stack ⊆ targets.map GoalTarget.id) (hnodup : stack.Nodup)
    (hfuel : targets.length + 1 ≤ fuel + stack.length) :
    LongestChain targets id (chain targets fuel id stack memo).1 ∧
      MemoSound targets (chain targets fuel id stack memo).2 := by
  induction fuel generalizing id stack memo with
  | zero =>
    have hlength := (hnodup.subperm hsub).length_le
    rw [List.length_map] at hlength
    omega
  | succ fuel ih =>
    rw [chain]
    cases hlookup : memo.lookup id with
    | some best => exact ⟨hmemo id best hlookup, hmemo⟩
    | none =>
      have hfresh : id ∉ stack := fun hmem => hacyclic id (hstack id hmem)
      have hbelow : ∀ d ∈ dependentsOf targets id, ∀ memo, MemoSound targets memo →
          LongestChain targets d (chain targets fuel d (id :: stack) memo).1 ∧
            MemoSound targets (chain targets fuel d (id :: stack) memo).2 := by
        intro d hd memo hmemo
        have hneeds := mem_dependentsOf.mp hd
        refine ih (needs_target hneeds) hmemo ?_ (List.cons_subset.mpr ⟨hid, hsub⟩)
          (List.nodup_cons.mpr ⟨hfresh, hnodup⟩) (by rw [List.length_cons]; omega)
        refine List.forall_mem_cons.mpr ⟨.single hneeds, fun s hs => ?_⟩
        exact .head hneeds (hstack s hs)
      obtain ⟨hbest, hout⟩ := chain_loop hbelow (n := 0) hmemo
      have hlongest := hbest.greatest (a := id) (fun d => mem_dependentsOf) fun d hd =>
        ⟨_, (hbelow d hd ∅ fun _ _ h => by simp at h).1⟩
      rw [if_neg hfresh]
      exact ⟨hlongest, hout.insert hlongest⟩

/-! The traversal. -/

omit hacyclic

/-- How many dependents the targets of a list have together. -/
def edgesFrom (targets : List GoalTarget) (ids : List TargetId) : ℕ :=
  (ids.map fun id => (dependentsOf targets id).length).sum

theorem length_dependentsOf (id : TargetId) :
    (dependentsOf targets id).length = (targets.map fun t => t.dependsOn.count id).sum := by
  rw [dependentsOf, sortBy, List.length_insertionSort, List.length_flatMap]
  congr 1
  refine List.map_congr_left fun t _ => ?_
  rw [List.length_map, ← List.countP_eq_length_filter, List.count]
  congr 1

theorem sum_count_le {ids : List TargetId} (hnodup : ids.Nodup) (deps : List TargetId) :
    (ids.map fun id => deps.count id).sum ≤ deps.length := by
  induction deps with
  | nil => simp
  | cons dep rest ih =>
    have hone : (ids.map fun id => if dep = id then 1 else 0).sum ≤ 1 := by
      have hcount : ∀ l : List TargetId, (l.map fun id => if dep = id then 1 else 0).sum = l.count dep := by
        intro l
        induction l with
        | nil => rfl
        | cons id rest ih =>
          rw [List.map_cons, List.sum_cons, ih, List.count_cons, add_comm]
          by_cases hdep : dep = id
          · simp [hdep]
          · simp [hdep, Ne.symm hdep]
      rw [hcount]
      exact List.nodup_iff_count_le_one.mp hnodup dep
    have hsplit : (ids.map fun id => (dep :: rest).count id).sum =
        (ids.map fun id => rest.count id).sum + (ids.map fun id => if dep = id then 1 else 0).sum := by
      rw [← List.sum_map_add]
      congr 1
      refine List.map_congr_left fun id _ => ?_
      simp [List.count_cons]
    rw [hsplit, List.length_cons]
    omega

/-- Distinct targets have no more dependents than there are dependencies. -/
theorem edgesFrom_le {ids : List TargetId} (hnodup : ids.Nodup) :
    edgesFrom targets ids ≤ (targets.map fun t => t.dependsOn.length).sum := by
  simp only [edgesFrom, length_dependentsOf]
  induction targets with
  | nil => simp
  | cons t rest ih =>
    have hcount := sum_count_le hnodup t.dependsOn
    simp only [List.map_cons, List.sum_cons, List.sum_map_add]
    omega

/-- Where the traversal from `self` is: what was queued is what the seen targets and `self` have for
dependents, and `pops` of it are done with. -/
structure TraversalInv (targets : List GoalTarget) (source : TargetId) (pops : ℕ)
    (queue seen : List TargetId) : Prop where
  nodup : (source :: seen).Nodup
  found : ∀ d, d ∈ queue ∨ d ∈ seen → d ∈ dependents targets source
  closed : ∀ v ∈ source :: seen, ∀ d ∈ dependentsOf targets v, d ∈ queue ∨ d ∈ seen
  count : pops + queue.length = edgesFrom targets (source :: seen)

theorem TraversalInv.start (self : TargetId) :
    TraversalInv targets self 0 (dependentsOf targets self) [] where
  nodup := List.nodup_singleton self
  found d hd := by
    rcases hd with hd | hd
    · exact .single (mem_dependentsOf.mp hd)
    · cases hd
  closed v hv d hd := by
    obtain rfl := List.mem_singleton.mp hv
    exact Or.inl hd
  count := by simp [edgesFrom]

theorem TraversalInv.skip {self next : TargetId} {queue seen : List TargetId}
    (h : TraversalInv targets self pops (next :: queue) seen) (hnext : next ∈ seen) :
    TraversalInv targets self (pops + 1) queue seen where
  nodup := h.nodup
  found d hd := h.found d (hd.imp_left (List.mem_cons_of_mem next))
  closed v hv d hd := by
    rcases h.closed v hv d hd with hqueue | hseen
    · rcases List.mem_cons.mp hqueue with rfl | hqueue
      · exact Or.inr hnext
      · exact Or.inl hqueue
    · exact Or.inr hseen
  count := by
    have := h.count
    rw [List.length_cons] at this
    omega

theorem TraversalInv.visit {self next : TargetId} {queue seen : List TargetId}
    (h : TraversalInv targets self pops (next :: queue) seen) (hnext : next ∉ seen)
    (hself : next ≠ self) :
    TraversalInv targets self (pops + 1) (queue ++ dependentsOf targets next) (next :: seen) where
  nodup := by
    obtain ⟨hout, hseen⟩ := List.nodup_cons.mp h.nodup
    refine List.nodup_cons.mpr ⟨?_, List.nodup_cons.mpr ⟨hnext, hseen⟩⟩
    exact List.not_mem_cons_of_ne_of_not_mem hself.symm hout
  found d hd := by
    have hfound := h.found next (Or.inl List.mem_cons_self)
    rw [List.mem_append, List.mem_cons] at hd
    rcases hd with (hd | hd) | rfl | hd
    · exact h.found d (Or.inl (List.mem_cons_of_mem next hd))
    · exact .head (mem_dependentsOf.mp hd) hfound
    · exact hfound
    · exact h.found d (Or.inr hd)
  closed v hv d hd := by
    rw [List.mem_append, List.mem_cons]
    have hold : v ∈ self :: seen → (d ∈ queue ∨ d ∈ dependentsOf targets next) ∨ d = next ∨ d ∈ seen := by
      intro hv
      rcases h.closed v hv d hd with hqueue | hseen
      · rcases List.mem_cons.mp hqueue with rfl | hqueue
        · exact Or.inr (Or.inl rfl)
        · exact Or.inl (Or.inl hqueue)
      · exact Or.inr (Or.inr hseen)
    rcases List.mem_cons.mp hv with rfl | hv
    · exact hold List.mem_cons_self
    · rcases List.mem_cons.mp hv with rfl | hv
      · exact Or.inl (Or.inr hd)
      · exact hold (List.mem_cons_of_mem self hv)
  count := by
    have := h.count
    simp only [edgesFrom, List.map_cons, List.sum_cons, List.length_cons, List.length_append] at this ⊢
    omega

/-- With nothing queued the seen targets are all that depend on `self`. -/
theorem TraversalInv.complete {self : TargetId} {seen : List TargetId}
    (h : TraversalInv targets self pops [] seen) :
    seen.Nodup ∧ ∀ d, d ∈ seen ↔ d ∈ dependents targets self := by
  have hclosed : ∀ v ∈ self :: seen, ∀ d, Needs targets d v → d ∈ seen := by
    intro v hv d hd
    rcases h.closed v hv d (mem_dependentsOf.mpr hd) with hqueue | hseen
    · cases hqueue
    · exact hseen
  refine ⟨(List.nodup_cons.mp h.nodup).2, fun d => ⟨fun hd => h.found d (Or.inr hd), fun hd => ?_⟩⟩
  induction hd using Relation.TransGen.head_induction_on with
  | single hd => exact hclosed self List.mem_cons_self _ hd
  | head hd _ ih => exact hclosed _ (List.mem_cons_of_mem self ih) _ hd

include hacyclic

theorem transitiveDependents_spec {self : TargetId} (fuel : ℕ) {queue seen : List TargetId}
    (h : TraversalInv targets self pops queue seen)
    (hfuel : (targets.map fun t => t.dependsOn.length).sum < fuel + pops) :
    let out := transitiveDependents targets self fuel queue seen
    out.Nodup ∧ ∀ d, d ∈ out ↔ d ∈ dependents targets self := by
  induction fuel generalizing pops queue seen with
  | zero =>
    have hle : edgesFrom targets _ ≤ _ := edgesFrom_le h.nodup
    have hcount := h.count
    omega
  | succ fuel ih =>
    cases queue with
    | nil => exact h.complete
    | cons next queue =>
      have hself : next ≠ self := by
        rintro rfl
        exact hacyclic next (h.found next (Or.inl List.mem_cons_self))
      simp only [transitiveDependents]
      by_cases hnext : next ∈ seen
      · rw [if_pos (Or.inl hnext)]
        exact ih (h.skip hnext) (by omega)
      · rw [if_neg (not_or.mpr ⟨hnext, hself⟩)]
        exact ih (h.visit hnext hself) (by omega)

/-! The metrics. -/

omit hacyclic

/-- The metrics of one target are what they are said to be. -/
structure Exact (targets : List GoalTarget) (id : TargetId) (c : TargetCriticality) : Prop where
  targetId : c.targetId = id
  transitiveDependents : c.transitiveDependents = (dependents targets id).ncard
  longestDownstreamChain : LongestChain targets id c.longestDownstreamChain

theorem Exact.unique {id : TargetId} {c c' : TargetCriticality} (h : Exact targets id c)
    (h' : Exact targets id c') : c = c' := by
  obtain ⟨cid, cdependents, clongest⟩ := c
  obtain ⟨cid', cdependents', clongest'⟩ := c'
  have hid : cid = cid' := h.targetId.trans h'.targetId.symm
  have hdependents : cdependents = cdependents' := h.transitiveDependents.trans h'.transitiveDependents.symm
  have hlongest : clongest = clongest' := h.longestDownstreamChain.unique h'.longestDownstreamChain
  rw [hid, hdependents, hlongest]

theorem exact_of_seen {id : TargetId} {seen : List TargetId} {longest : ℕ} (hnodup : seen.Nodup)
    (hseen : ∀ d, d ∈ seen ↔ d ∈ dependents targets id) (hlongest : LongestChain targets id longest) :
    Exact targets id ⟨id, seen.length, longest⟩ where
  targetId := rfl
  transitiveDependents := by
    have hset : dependents targets id = ↑seen.toFinset := by
      ext d
      rw [List.coe_toFinset]
      exact (hseen d).symm
    rw [hset, Set.ncard_coe_finset, List.toFinset_card_of_nodup hnodup]
  longestDownstreamChain := hlongest

theorem exact_insert {acc : Table TargetId TargetCriticality}
    (h : ∀ id c, acc.lookup id = some c → Exact targets id c) {id : TargetId} {c : TargetCriticality}
    (hc : Exact targets id c) : ∀ id' c', (acc.insert id c).lookup id' = some c' → Exact targets id' c' := by
  intro id' c' hlookup
  by_cases hid : id' = id
  · subst hid
    rw [AList.lookup_insert] at hlookup
    exact Option.some.inj hlookup ▸ hc
  · rw [AList.lookup_insert_ne hid] at hlookup
    exact h id' c' hlookup

include hacyclic

/-- Every target has its metrics. -/
theorem computeCriticality_exact {id : TargetId} (hid : id ∈ targets.map GoalTarget.id) :
    ∃ c, (computeCriticality targets).lookup id = some c ∧ Exact targets id c := by
  have hloop : ∀ (ts : List GoalTarget), ts ⊆ targets → ∀ (acc : Table TargetId TargetCriticality)
      (memo : Table TargetId ℕ), MemoSound targets memo →
      (∀ id c, acc.lookup id = some c → Exact targets id c) →
      let out := ts.foldl (fun acc t =>
        let seen := transitiveDependents targets t.id
          (2 * (targets.map fun t => t.dependsOn.length).sum + 1) (dependentsOf targets t.id) []
        let longest := chain targets (targets.length + 1) t.id [] acc.2
        (acc.1.insert t.id ⟨t.id, seen.length, longest.1⟩, longest.2)) (acc, memo)
      (∀ id c, out.1.lookup id = some c → Exact targets id c) ∧
        ∀ id, id ∈ ts.map GoalTarget.id ∨ (acc.lookup id).isSome → (out.1.lookup id).isSome := by
    intro ts
    induction ts with
    | nil =>
      intro _ acc memo _ hacc
      exact ⟨hacc, fun id hid => hid.resolve_left (List.not_mem_nil)⟩
    | cons t rest ih =>
      intro hsub acc memo hmemo hacc
      have ht : t ∈ targets := hsub List.mem_cons_self
      obtain ⟨hlongest, hmemo'⟩ := chain_spec hacyclic (targets.length + 1) (List.mem_map_of_mem ht) hmemo
        (List.forall_mem_nil _) (List.nil_subset _) List.nodup_nil (by simp)
      obtain ⟨hnodup, hseen⟩ := transitiveDependents_spec hacyclic
        (2 * (targets.map fun t => t.dependsOn.length).sum + 1) (TraversalInv.start t.id) (by omega)
      have hexact := exact_of_seen hnodup hseen hlongest
      obtain ⟨hout, hsome⟩ := ih (fun u hu => hsub (List.mem_cons_of_mem t hu)) _ _ hmemo'
        (exact_insert hacc hexact)
      refine ⟨hout, fun id hid => hsome id ?_⟩
      by_cases hidt : id = t.id
      · subst hidt
        exact Or.inr (by rw [AList.lookup_insert]; rfl)
      · rw [AList.lookup_insert_ne hidt]
        exact hid.imp_left fun hmem => (List.mem_cons.mp hmem).resolve_left hidt
  obtain ⟨hout, hsome⟩ := hloop targets (fun _ h => h) ∅ ∅ (fun _ _ h => by simp at h) fun _ _ h => by simp at h
  obtain ⟨c, hc⟩ := Option.isSome_iff_exists.mp (hsome id (Or.inl hid))
  exact ⟨c, hc, hout id c hc⟩

omit hacyclic

end Graph

/-! The order. -/

variable {a b : GoalTarget}

section Order

variable (criticality : Table TargetId TargetCriticality)

def countOf (t : GoalTarget) : ℕ := ((criticality.lookup t.id).map (·.transitiveDependents)).getD 0

def longestOf (t : GoalTarget) : ℕ := ((criticality.lookup t.id).map (·.longestDownstreamChain)).getD 0

instance : Std.TransCmp (compareTargets criticality) :=
  inferInstanceAs (Std.TransCmp (compareLex (fun a b => compareOn (countOf criticality) b a)
    (compareLex (fun a b => compareOn (longestOf criticality) b a)
      (compareLex (fun a b => compareOn GoalTarget.priority b a)
        (Ordering.byKey GoalTarget.id compareStrings)))))

theorem compareTargets_separates (h : compareTargets criticality a b = .eq) :
    a.id = b.id := by
  simp only [compareTargets, Ordering.then_eq_eq] at h
  exact compareStrings_separates h.2.2.2

/-- On targets with distinct ids the comparison is a strict total order. -/
theorem compareTargets_strict {s : Set GoalTarget} (hids : s.InjOn GoalTarget.id) :
    IsStrictTotalOrder s fun a b => compareTargets criticality a b = .lt where
  trichotomous a b hab hba := by
    refine Subtype.ext (hids a.2 b.2 (compareTargets_separates criticality ?_))
    cases hcmp : compareTargets criticality a.1 b.1 with
    | lt => exact absurd hcmp hab
    | eq => rfl
    | gt => exact absurd (Std.OrientedCmp.lt_of_gt hcmp) hba
  irrefl a h := by
    have heq : compareTargets criticality a.1 a.1 = .eq := Std.ReflCmp.compare_self
    rw [heq] at h
    cases h
  trans a b c hab hbc := Std.TransCmp.lt_trans hab hbc

theorem compareTargets_lt_of_count (h : countOf criticality b < countOf criticality a) :
    compareTargets criticality a b = .lt := by
  have hcompare : compare (countOf criticality b) (countOf criticality a) = .lt := Nat.compare_eq_lt.mpr h
  change (compare (countOf criticality b) (countOf criticality a)).then _ = .lt
  rw [hcompare]
  rfl

end Order

section Scheduled

variable {targets : List GoalTarget}

theorem dependents_finite (id : TargetId) : (dependents targets id).Finite := by
  refine (List.finite_toSet (targets.map GoalTarget.id)).subset fun d hd => ?_
  cases hd using Relation.TransGen.head_induction_on with
  | single hneeds => exact needs_target hneeds
  | head hneeds => exact needs_target hneeds

theorem needs_perm {targets' : List GoalTarget} (hperm : targets.Perm targets') :
    Needs targets = Needs targets' := by
  funext d id
  simp only [Needs, hperm.mem_iff]

variable (hacyclic : ∀ id, ¬ Relation.TransGen (Needs targets) id id)

include hacyclic

/-- What depends on a dependent depends on the target too, and the dependent itself comes on top. -/
theorem compareTargets_dependent (ha : a ∈ targets) (hb : b ∈ targets)
    (hab : b.id ∈ dependents targets a.id) : compareTargets (computeCriticality targets) a b = .lt := by
  obtain ⟨ca, hca, hexacta⟩ := computeCriticality_exact hacyclic (List.mem_map_of_mem ha)
  obtain ⟨cb, hcb, hexactb⟩ := computeCriticality_exact hacyclic (List.mem_map_of_mem hb)
  have hsub : dependents targets b.id ⊂ dependents targets a.id :=
    ⟨fun d hd => hd.trans hab, fun hle => hacyclic b.id (hle hab)⟩
  have hcount : (dependents targets b.id).ncard < (dependents targets a.id).ncard :=
    Set.ncard_lt_ncard hsub (dependents_finite a.id)
  apply compareTargets_lt_of_count
  simp only [countOf, hca, hcb, Option.map_some, Option.getD_some]
  rw [hexacta.transitiveDependents, hexactb.transitiveDependents]
  exact hcount

theorem computeCriticality_perm {targets' : List GoalTarget} (hperm : targets.Perm targets')
    {id : TargetId} (hid : id ∈ targets.map GoalTarget.id) :
    (computeCriticality targets).lookup id = (computeCriticality targets').lookup id := by
  have hneeds := needs_perm hperm
  obtain ⟨c, hc, hexact⟩ := computeCriticality_exact hacyclic hid
  obtain ⟨c', hc', hexact'⟩ := computeCriticality_exact (hneeds ▸ hacyclic)
    ((hperm.map GoalTarget.id).mem_iff.mp hid)
  have hsame : Exact targets id c' := by
    refine ⟨hexact'.targetId, ?_, ?_⟩
    · rw [hexact'.transitiveDependents, dependents, dependents, hneeds]
    · rw [LongestChain, hneeds]
      exact hexact'.longestDownstreamChain
  rw [hc, hc', hexact.unique hsame]

/-- The targets that may start do not depend on the order of the graph's targets. -/
theorem eligibleTargets_perm {run : GoalRunLedger} {graph graph' : GoalGraphDefinition}
    (htargets : graph.targets = targets) (hids : (targets.map GoalTarget.id).Nodup)
    (hperm : graph.targets.Perm graph'.targets) : eligibleTargets run graph = eligibleTargets run graph' := by
  subst htargets
  let may (t : GoalTarget) : Bool :=
    decide (run.statusOrQueued t.id ∈ selectable) && dependenciesCompleted run t
  have hmem : ∀ {t}, t ∈ graph'.targets.filter may → t ∈ graph.targets := fun ht =>
    hperm.mem_iff.mpr (List.mem_of_mem_filter ht)
  have hsame : sortBy (compareTargets (computeCriticality graph'.targets)) (graph'.targets.filter may) =
      sortBy (compareTargets (computeCriticality graph.targets)) (graph'.targets.filter may) := by
    have hlookup : ∀ t ∈ graph'.targets.filter may, _ := fun t ht =>
      computeCriticality_perm hacyclic hperm (List.mem_map_of_mem (hmem ht))
    have hcompare : ∀ a ∈ graph'.targets.filter may, ∀ b ∈ graph'.targets.filter may,
        compareTargets (computeCriticality graph'.targets) a b =
          compareTargets (computeCriticality graph.targets) a b := by
      intro a ha b hb
      rw [compareTargets, compareTargets, hlookup a ha, hlookup b hb]
    have hmap := sortBy_map_on hcompare (f := fun t : GoalTarget => t)
    rwa [List.map_id', List.map_id'] at hmap
  have hsorted : sortBy (compareTargets (computeCriticality graph.targets)) (graph.targets.filter may) =
      sortBy (compareTargets (computeCriticality graph.targets)) (graph'.targets.filter may) := by
    have hdistinct : ((graph.targets.filter may).map GoalTarget.id).Nodup :=
      hids.sublist (List.filter_sublist.map GoalTarget.id)
    refine sortBy_key_perm (hperm.filter may) (by simpa using hdistinct.of_map) fun a ha b hb heq => ?_
    exact List.inj_on_of_nodup_map hdistinct ha hb (compareTargets_separates _ heq)
  rw [eligibleTargets, eligibleTargets]
  exact congrArg (List.map GoalTarget.id) (hsorted.trans hsame.symm)

end Scheduled

/-- The metrics are exact on every acyclic graph, and selection follows them. -/
theorem criticality_exact (targets : List GoalTarget)
    (hacyclic : ∀ id, ¬ Relation.TransGen (Needs targets) id id) :
    (∀ t ∈ targets, ∃ c, (computeCriticality targets).lookup t.id = some c ∧ Exact targets t.id c) ∧
    (∀ (criticality : Table TargetId TargetCriticality) (s : Set GoalTarget), s.InjOn GoalTarget.id →
      IsStrictTotalOrder s fun a b => compareTargets criticality a b = .lt) ∧
    (∀ a ∈ targets, ∀ b ∈ targets, Relation.TransGen (Needs targets) b.id a.id →
      compareTargets (computeCriticality targets) a b = .lt) ∧
    ((targets.map GoalTarget.id).Nodup → ∀ (run : GoalRunLedger) (graph graph' : GoalGraphDefinition),
      graph.targets = targets → targets.Perm graph'.targets →
        eligibleTargets run graph = eligibleTargets run graph') := by
  refine ⟨fun t ht => ?_, fun criticality s hids => ?_, fun a ha b hb hab => ?_, ?_⟩
  · exact computeCriticality_exact hacyclic (List.mem_map_of_mem ht)
  · exact compareTargets_strict criticality hids
  · exact compareTargets_dependent hacyclic ha hb hab
  · intro hids run graph graph' htargets hperm
    exact eligibleTargets_perm hacyclic htargets hids (htargets ▸ hperm)

def plainTarget (id : TargetId) (dependsOn : List TargetId) : GoalTarget where
  id := id
  dependsOn := dependsOn
  priority := 0
  executor := "shell"
  artifacts := []
  acceptance := []
  externalDependency := false
  requiresApproval := false

/-- A diamond: `d` depends on `b` and `c`, and both on `a`. -/
def diamond : List GoalTarget :=
  [plainTarget "a" [], plainTarget "b" ["a"], plainTarget "c" ["a"], plainTarget "d" ["b", "c"]]

theorem diamond_acyclic (id : TargetId) : ¬ Relation.TransGen (Needs diamond) id id := by
  let rank (id : TargetId) : ℕ := if id = "a" then 0 else if id = "d" then 2 else 1
  have hneeds : ∀ v w, Needs diamond v w → rank w < rank v := by
    rintro v w ⟨t, ht, rfl, hw⟩
    have hall : ∀ t ∈ diamond, ∀ w ∈ t.dependsOn, rank w < rank t.id := by decide
    exact hall t ht w hw
  have hrank : ∀ v w, Relation.TransGen (Needs diamond) v w → rank w < rank v := by
    intro v w h
    induction h with
    | single h => exact hneeds _ _ h
    | tail _ h ih => exact (hneeds _ _ h).trans ih
  exact fun h => lt_irrefl _ (hrank id id h)

theorem diamond_exact :
    (∀ t ∈ diamond, ∃ c, (computeCriticality diamond).lookup t.id = some c ∧ Exact diamond t.id c) ∧
    compareTargets (computeCriticality diamond) (plainTarget "a" []) (plainTarget "d" ["b", "c"]) = .lt := by
  have hexact := criticality_exact diamond diamond_acyclic
  have hdepends : Relation.TransGen (Needs diamond) "d" "a" := by
    refine .head (b := "b") ⟨plainTarget "d" ["b", "c"], ?_, rfl, ?_⟩
      (.single ⟨plainTarget "b" ["a"], ?_, rfl, ?_⟩)
    all_goals simp [diamond, plainTarget]
  exact ⟨hexact.1, hexact.2.2.1 _ (by simp [diamond]) _ (by simp [diamond]) hdepends⟩

end Wazir.Goals
