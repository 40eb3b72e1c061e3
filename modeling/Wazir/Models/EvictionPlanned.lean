import Wazir.Models.LoadPlan
import Wazir.Models.AdmissionSound
import Wazir.Shared.DescendingSums
import Wazir.Shared.KeyedLists

/-! The victims that `planEviction` chooses: they cover the shortfall, and none do with fewer. -/

namespace Wazir.Models.LoadTarget

def largestFirst : List Victim → List Victim :=
  sortBy fun a b => compare b.reclaimBytes a.reclaimBytes

/-- Some candidates cover the shortfall, and no choice of fewer does. -/
structure FewestCover (shortfall : ℚ) (candidates victims : List Victim) : Prop where
  among : victims.Subperm candidates
  covers : shortfall ≤ reclaimed victims
  fewest : ∀ others : List Victim, others.Subperm candidates → shortfall ≤ reclaimed others →
    victims.length ≤ others.length

section Choice

variable {shortfall : ℚ} {candidates others : List Victim}

theorem untilCovered_take (shortfall sum : ℚ) (l : List Victim) :
    ∃ k, untilCovered shortfall sum l = l.take k ∧
    (∀ j < k, sum + reclaimed (l.take j) < shortfall) ∧
    (shortfall ≤ sum + reclaimed (l.take k) ∨ l.length ≤ k) := by
  induction l generalizing sum with
  | nil => exact ⟨0, rfl, fun j hj => absurd hj (Nat.not_lt_zero j), .inr le_rfl⟩
  | cons c rest ih =>
    rw [untilCovered]
    split_ifs with hcovered
    · obtain ⟨k, htake, hbefore, -⟩ := ih sum
      obtain rfl : k = 0 := by
        by_contra hk
        have hzero := hbefore 0 (Nat.pos_of_ne_zero hk)
        simp only [List.take_zero, reclaimed, List.map_nil, List.sum_nil, add_zero] at hzero
        exact absurd hcovered (not_le.mpr hzero)
      exact ⟨0, htake, fun j hj => absurd hj (Nat.not_lt_zero j), .inl (by simpa [reclaimed] using hcovered)⟩
    · obtain ⟨k, htake, hbefore, hend⟩ := ih (sum + c.reclaimBytes)
      have hsum : ∀ j, sum + reclaimed ((c :: rest).take (j + 1)) =
          sum + c.reclaimBytes + reclaimed (rest.take j) := fun j => by
        simp [reclaimed, add_assoc]
      refine ⟨k + 1, by rw [htake, List.take_succ_cons], fun j hj => ?_, ?_⟩
      · cases j with
        | zero => simpa [reclaimed] using hcovered
        | succ j =>
          rw [hsum]
          exact hbefore j (Nat.lt_of_succ_lt_succ hj)
      · rw [hsum, List.length_cons]
        exact hend.imp_right Nat.succ_le_succ

theorem largestFirst_perm (l : List Victim) : (largestFirst l).Perm l := List.perm_insertionSort _ l

theorem largestFirst_descends (l : List Victim) :
    ((largestFirst l).map (·.reclaimBytes)).Pairwise (· ≥ ·) :=
  List.pairwise_map.mpr ((@sortBy_pairwise _ _ (fun a b : ℚ => compare b a) _
    Victim.reclaimBytes l).imp fun h => compare_le_iff_le.mp (Ordering.isLE_iff_ne_gt.mp h))

/-- No choice of as many has more than the largest. -/
theorem reclaimed_le_take (h : others.Subperm candidates) :
    reclaimed others ≤ reclaimed ((largestFirst candidates).take others.length) := by
  obtain ⟨others', hperm, hothers⟩ := (largestFirst_perm others).subperm.trans
    (h.trans (largestFirst_perm candidates).symm.subperm)
  have hsub : ((largestFirst others).map (·.reclaimBytes)).Subperm
      ((largestFirst candidates).map (·.reclaimBytes)) := ⟨_, hperm.map _, hothers.map _⟩
  have hle := sum_sublist_le_take (List.sublist_of_subperm_of_pairwise hsub
    (largestFirst_descends others) (largestFirst_descends candidates)) (largestFirst_descends candidates)
  rwa [((largestFirst_perm others).map _).sum_eq, List.length_map, (largestFirst_perm others).length_eq,
    ← List.map_take] at hle

theorem selected_cases (hshort : 0 < shortfall) (candidates : List Victim) :
    FewestCover shortfall candidates (selected shortfall candidates) ∨
    (reclaimed (selected shortfall candidates) < shortfall ∧
      ∀ others : List Victim, others.Subperm candidates → reclaimed others < shortfall) := by
  unfold selected
  split
  · rename_i one hone
    obtain ⟨hmem, hcovers⟩ := List.mem_filter.mp (mem_sortBy.mp (List.mem_of_mem_head? hone))
    refine .inl ⟨List.singleton_subperm_iff.mpr hmem, ?_, fun others _ hothers => ?_⟩
    · simpa [reclaimed] using hcovers
    · by_contra hlen
      obtain rfl : others = [] := List.length_eq_zero_iff.mp (by simpa using hlen)
      exact absurd hshort (not_lt.mpr hothers)
  · obtain ⟨k, htake, hbefore, hend⟩ := untilCovered_take shortfall 0 (largestFirst candidates)
    change FewestCover _ _ (untilCovered shortfall 0 (largestFirst candidates)) ∨
      (reclaimed (untilCovered shortfall 0 (largestFirst candidates)) < _ ∧ _)
    simp only [zero_add] at hbefore hend
    rw [htake]
    by_cases hcovers : shortfall ≤ reclaimed ((largestFirst candidates).take k)
    · refine .inl ⟨(List.take_sublist k _).subperm.trans (largestFirst_perm candidates).subperm,
        hcovers, fun others hsub hothers => ?_⟩
      by_contra hlen
      have hfewer : others.length < k := by
        rw [List.length_take] at hlen
        omega
      exact absurd (hothers.trans (reclaimed_le_take hsub)) (not_le.mpr (hbefore _ hfewer))
    · have hall := hend.resolve_left hcovers
      refine .inr ⟨not_le.mp hcovers, fun others hsub => (reclaimed_le_take hsub).trans_lt ?_⟩
      rcases lt_or_ge others.length k with hlt | hge
      · exact hbefore _ hlt
      · rw [List.take_of_length_le (hall.trans hge), ← List.take_of_length_le hall]
        exact not_le.mp hcovers

end Choice

/-- The plan gets victims that cover what is missing, as few as can be; or it stays as it is, where no
choice of victims would do. -/
def EvictsFewest (t : LoadTarget) (plan : ModelLoadPlan) (shortfall : ℚ) : Prop :=
  (∃ victims, FewestCover shortfall (t.candidates plan.instanceId) victims ∧
    t.planEviction plan = { plan with
      modelsToEvict := victims
      reasons := plan.reasons.filter (· ≠ .insufficientMemory) }) ∨
  (t.planEviction plan = plan ∧ ∀ others : List Victim,
    others.Subperm (t.candidates plan.instanceId) → reclaimed others < shortfall)

theorem planEviction_fewest (t : LoadTarget) (plan : ModelLoadPlan) (total : ℚ)
    (htotal : plan.estimate.estimatedTotalMemory = some total)
    (hshort : plan.estimate.usableMemory.getD 0 < total) :
    EvictsFewest t plan (total - plan.estimate.usableMemory.getD 0) := by
  simp only [EvictsFewest, planEviction, htotal]
  rcases selected_cases (sub_pos.mpr hshort) (t.candidates plan.instanceId) with hcover | ⟨hless, hnone⟩
  · exact .inl ⟨_, hcover, if_neg (not_lt.mpr hcover.covers)⟩
  · exact .inr ⟨if_pos hless, hnone⟩

def readyResident (id : String) (bytes : ℚ) : ModelInstance :=
  { idleInstance with id := id, loaded := true, state := some .ready, residentMemoryBytes := some bytes }

/-- Two of the three go: 3 and 2 of the 4 that are missing. -/
theorem planEviction_fewest_two :
    EvictsFewest { smallMachine 100 with
        residents := [readyResident "a" 1, readyResident "b" 3, readyResident "c" 2] }
      ⟨"m::pc::rt", none, none, 10, 10, none, ⟨10, some 10, none, some 10, some 6, .insufficient⟩,
        [], false, [.insufficientMemory]⟩ (10 - 6) :=
  planEviction_fewest _ _ 10 rfl (by simp; norm_num)

end Wazir.Models.LoadTarget
