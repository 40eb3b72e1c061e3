import Wazir.Shared.Strings

/-! Lists whose members are told apart by a key: what is found by key and what sorting by key gives do
not depend on their order. -/

namespace Wazir

section Find

variable {α κ : Type} [DecidableEq κ] {key : α → κ} {l m : List α}

theorem find_key_eq_some (distinct : (l.map key).Nodup) {k : κ} {a : α} :
    l.find? (key · = k) = some a ↔ a ∈ l ∧ key a = k := by
  constructor
  · intro found
    exact ⟨List.mem_of_find?_eq_some found, by simpa using List.find?_some found⟩
  · rintro ⟨ha, rfl⟩
    obtain ⟨b, found⟩ := Option.isSome_iff_exists.mp
      (List.find?_isSome.mpr ⟨a, ha, decide_eq_true rfl⟩ : (l.find? (key · = key a)).isSome)
    have same : key b = key a := by simpa using List.find?_some found
    rw [found, List.inj_on_of_nodup_map distinct (List.mem_of_find?_eq_some found) ha same]

theorem find_key_perm (perm : l.Perm m) (distinct : (l.map key).Nodup) (k : κ) :
    l.find? (key · = k) = m.find? (key · = k) := by
  refine Option.ext fun a => ?_
  rw [find_key_eq_some distinct, find_key_eq_some ((perm.map key).nodup_iff.mp distinct), perm.mem_iff]

/-- The members with the key of one of them are that one. -/
theorem filter_key_eq (distinct : (l.map key).Nodup) {a : α} (ha : a ∈ l) :
    l.filter (key · = key a) = [a] := by
  induction l with
  | nil => cases ha
  | cons b rest ih =>
    obtain ⟨hb, hrest⟩ := List.nodup_cons.mp distinct
    rcases List.mem_cons.mp ha with rfl | ha
    · have hnone : rest.filter (key · = key a) = [] := List.filter_eq_nil_iff.mpr fun c hc heq =>
        hb (of_decide_eq_true heq ▸ List.mem_map_of_mem hc)
      rw [List.filter_cons_of_pos (by simp), hnone]
    · have hne : key b ≠ key a := fun heq => hb (heq ▸ List.mem_map_of_mem ha)
      rw [List.filter_cons_of_neg (by simpa using hne), ih hrest ha]

end Find

section Order

variable {α κ : Type} {key : α → κ} {cmp : κ → κ → Ordering} {l m : List α}

theorem sortBy_pairwise [Std.TransCmp cmp] (key : α → κ) (l : List α) :
    (sortBy (fun a b => cmp (key a) (key b)) l).Pairwise fun a b => (cmp (key a) (key b)).isLE := by
  have total : Std.Total fun a b => cmp (key a) (key b) ≠ .gt :=
    ⟨fun a b => by
      have swap : cmp (key b) (key a) = (cmp (key a) (key b)).swap := Std.OrientedCmp.eq_swap
      rw [swap]
      cases cmp (key a) (key b) <;> simp⟩
  have trans : IsTrans α fun a b => cmp (key a) (key b) ≠ .gt :=
    ⟨fun a b c hab hbc => Ordering.isLE_iff_ne_gt.mp
      (Std.TransCmp.isLE_trans (Ordering.isLE_iff_ne_gt.mpr hab) (Ordering.isLE_iff_ne_gt.mpr hbc))⟩
  exact (List.pairwise_insertionSort _ l).imp fun h => Ordering.isLE_iff_ne_gt.mpr h

theorem sortBy_key_perm [Std.TransCmp cmp] (perm : l.Perm m) (distinct : (l.map key).Nodup)
    (separates : ∀ a ∈ l, ∀ b ∈ l, cmp (key a) (key b) = .eq → key a = key b) :
    sortBy (fun a b => cmp (key a) (key b)) l = sortBy (fun a b => cmp (key a) (key b)) m := by
  refine List.Perm.eq_of_pairwise (fun a b ha hb hab hba => ?_) (sortBy_pairwise key l)
    (sortBy_pairwise key m)
    ((List.perm_insertionSort _ l).trans (perm.trans (List.perm_insertionSort _ m).symm))
  have ha' : a ∈ l := mem_sortBy.mp ha
  have hb' : b ∈ l := perm.mem_iff.mpr (mem_sortBy.mp hb)
  exact List.inj_on_of_nodup_map distinct ha' hb'
    (separates a ha' b hb' (Std.OrientedCmp.isLE_antisymm hab hba))

end Order

end Wazir
