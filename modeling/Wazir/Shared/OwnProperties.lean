import Wazir.Shared.JsonRoundTrip
import Wazir.Shared.KeyedLists
import Wazir.Shared.Lookups
import Mathlib.Data.List.Lex

/-! The own properties of an object: sorted by their names, and in the engine's order. -/

namespace Wazir

/-! The order of names is a total one. -/

theorem utf16_eq (s : String) : utf16 s = s.toList.flatMap charUnits := rfl

theorem utf16_inj {s t : String} (h : utf16 s = utf16 t) : s = t := by
  have hchars := congrArg ofUnits h
  rw [utf16_eq, utf16_eq, ofUnits_flatMap, ofUnits_flatMap] at hchars
  exact String.toList_inj.mp hchars

theorem compareStrings_swap (a b : String) : compareStrings a b = (compareStrings b a).swap := by
  have hasymm : utf16 a < utf16 b → ¬ utf16 b < utf16 a := fun h => lt_asymm h
  rw [compareStrings, compareStrings]
  by_cases hab : utf16 a < utf16 b
  · rw [if_pos hab, if_neg (hasymm hab), if_pos hab]
    rfl
  · by_cases hba : utf16 b < utf16 a
    · rw [if_neg hab, if_pos hba, if_pos hba]
      rfl
    · rw [if_neg hab, if_neg hba, if_neg hba, if_neg hab]
      rfl

theorem compareStrings_isLE {a b : String} :
    (compareStrings a b).isLE ↔ ¬ utf16 b < utf16 a := by
  have hasymm : utf16 a < utf16 b → ¬ utf16 b < utf16 a := fun h => lt_asymm h
  rw [compareStrings]
  by_cases hab : utf16 a < utf16 b
  · simpa [if_pos hab] using hasymm hab
  · rw [if_neg hab]
    by_cases hba : utf16 b < utf16 a <;> simp [hba]

theorem compareStrings_separates {a b : String} (h : compareStrings a b = .eq) : a = b := by
  have hab : ¬ utf16 b < utf16 a := compareStrings_isLE.mp (by rw [h]; rfl)
  have hba : ¬ utf16 a < utf16 b := by
    rw [← compareStrings_isLE, compareStrings_swap, h]
    rfl
  exact utf16_inj (le_antisymm (not_lt.mp hab) (not_lt.mp hba))

instance : Std.TransCmp compareStrings where
  eq_swap := compareStrings_swap _ _
  isLE_trans := by
    intro a b c hab hbc
    rw [compareStrings_isLE] at *
    exact not_lt.mpr (le_trans (not_lt.mp hab) (not_lt.mp hbc))

section Fields

variable {α : Type} {fields other : List (String × α)}

/-- The properties in the order of `Object.keys(v).sort()`. -/
def sortKeys (fields : List (String × α)) : List (String × α) :=
  sortBy (fun a b => compareStrings a.1 b.1) fields

theorem sortKeys_perm (fields : List (String × α)) : (sortKeys fields).Perm fields :=
  List.perm_insertionSort _ _

theorem sortKeys_pairwise (fields : List (String × α)) :
    (sortKeys fields).Pairwise fun a b => (compareStrings a.1 b.1).isLE :=
  sortBy_pairwise Prod.fst fields

theorem sortKeys_congr (h : fields.Perm other) (hnodup : (fields.map Prod.fst).Nodup) :
    sortKeys fields = sortKeys other :=
  sortBy_key_perm h hnodup fun _ _ _ _ => compareStrings_separates

theorem sortKeys_sorted (h : fields.Pairwise fun a b => (compareStrings a.1 b.1).isLE) :
    sortKeys fields = fields :=
  List.Pairwise.insertionSort_eq (h.imp fun hle => Ordering.isLE_iff_ne_gt.mp hle)

theorem sortKeys_filter (hnodup : (fields.map Prod.fst).Nodup) (p : String × α → Bool) :
    (sortKeys fields).filter p = sortKeys (fields.filter p) := by
  have hperm := (sortKeys_perm fields).filter p
  have hkeys : (((sortKeys fields).filter p).map Prod.fst).Nodup :=
    (((sortKeys_perm fields).map Prod.fst).nodup_iff.mpr hnodup).sublist
      (List.filter_sublist.map Prod.fst)
  rw [← sortKeys_congr hperm hkeys]
  exact (sortKeys_sorted ((sortKeys_pairwise fields).sublist List.filter_sublist)).symm

theorem sortKeys_map {β : Type} (f : α → β) (fields : List (String × α)) :
    sortKeys (fields.map fun kv => (kv.1, f kv.2)) =
      (sortKeys fields).map fun kv => (kv.1, f kv.2) :=
  sortBy_map (fun _ _ => rfl) fields

def isIndex (kv : String × α) : Bool := (propertyIndex kv.1).isSome

def compareIndices (a b : String × α) : Ordering :=
  compare ((propertyIndex a.1).getD 0) ((propertyIndex b.1).getD 0)

theorem ownOrder_eq (fields : List (String × α)) : ownOrder fields =
    sortBy compareIndices (fields.filter isIndex) ++ fields.filter fun kv => !isIndex kv := by
  rw [ownOrder]
  congr 2
  funext kv
  rw [isIndex]
  cases propertyIndex kv.1 <;> rfl

theorem ownOrder_perm (fields : List (String × α)) : (ownOrder fields).Perm fields := by
  rw [ownOrder_eq]
  exact ((List.perm_insertionSort _ _).append_right _).trans (List.filter_append_perm _ fields)

theorem ownOrder_ownOrder (fields : List (String × α)) :
    ownOrder (ownOrder fields) = ownOrder fields := by
  have hfirst : ∀ kv ∈ sortBy compareIndices (fields.filter isIndex), isIndex kv = true :=
    fun kv hkv => (List.mem_filter.mp (mem_sortBy.mp hkv)).2
  have hlast : ∀ kv ∈ fields.filter fun kv => !isIndex kv, isIndex kv = false := by
    intro kv hkv
    simpa using (List.mem_filter.mp hkv).2
  have hsorted : (sortBy compareIndices (fields.filter isIndex)).Pairwise fun a b =>
      (compareIndices a b).isLE :=
    sortBy_pairwise (fun kv : String × α => (propertyIndex kv.1).getD 0) (fields.filter isIndex)
  have hagain : sortBy compareIndices (sortBy compareIndices (fields.filter isIndex)) =
      sortBy compareIndices (fields.filter isIndex) :=
    List.Pairwise.insertionSort_eq (hsorted.imp fun hle => Ordering.isLE_iff_ne_gt.mp hle)
  rw [ownOrder_eq fields]
  generalize sortBy compareIndices (fields.filter isIndex) = first at *
  generalize (fields.filter fun kv => !isIndex kv) = last at *
  have hindices : (first ++ last).filter isIndex = first := by
    rw [List.filter_append, List.filter_eq_self.mpr hfirst,
      List.filter_eq_nil_iff.mpr fun kv hkv => by simp [hlast kv hkv], List.append_nil]
  have hnames : ((first ++ last).filter fun kv => !isIndex kv) = last := by
    rw [List.filter_append, List.filter_eq_nil_iff.mpr fun kv hkv => by simp [hfirst kv hkv],
      List.filter_eq_self.mpr fun kv hkv => by simp [hlast kv hkv], List.nil_append]
  rw [ownOrder_eq, hindices, hnames, hagain]

/-- The order of the properties of an object that was built in the order of the sorted names. -/
def arranged (fields : List (String × α)) : List (String × α) := ownOrder (sortKeys fields)

theorem arranged_perm (fields : List (String × α)) : (arranged fields).Perm fields :=
  (ownOrder_perm _).trans (sortKeys_perm fields)

theorem arranged_congr (h : fields.Perm other) (hnodup : (fields.map Prod.fst).Nodup) :
    arranged fields = arranged other := by
  rw [arranged, sortKeys_congr h hnodup, arranged]

theorem lookup_perm (h : fields.Perm other) (hnodup : (fields.map Prod.fst).Nodup) (key : String) :
    fields.lookup key = other.lookup key := by
  refine Option.ext fun a => ?_
  rw [lookup_eq_some_mem hnodup, lookup_eq_some_mem ((h.map Prod.fst).nodup_iff.mp hnodup), h.mem_iff]

end Fields

end Wazir
