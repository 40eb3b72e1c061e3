import Mathlib.Data.List.Basic
import Mathlib.Tactic.SplitIfs

/-! Lists of pairs as tables: what a key finds. -/

namespace Wazir

section Lookup

variable {α β : Type} [BEq α] [LawfulBEq α] {l : List (α × β)}

theorem lookup_eq_some_mem (hnodup : (l.map Prod.fst).Nodup) {a : α} {b : β} :
    l.lookup a = some b ↔ (a, b) ∈ l := by
  induction l with
  | nil => simp
  | cons kv rest ih =>
    obtain ⟨k, v⟩ := kv
    obtain ⟨hk, hrest⟩ := List.nodup_cons.mp hnodup
    rw [List.lookup_cons]
    by_cases hak : a = k
    · subst hak
      have hnot : (a, b) ∉ rest := fun h => hk (List.mem_map.mpr ⟨_, h, rfl⟩)
      simp [hnot, eq_comm]
    · have hbeq : (a == k) = false := by simpa using hak
      rw [hbeq]
      simp [hak, ih hrest]

theorem lookup_eq_none_mem {a : α} : l.lookup a = none ↔ a ∉ l.map Prod.fst := by
  rw [List.lookup_eq_none_iff]
  simp only [List.mem_map, Prod.exists, exists_and_right, exists_eq_right, not_exists]
  constructor
  · intro h b hb
    simpa using h _ hb
  · rintro h ⟨k, v⟩ hkv
    rw [bne_iff_ne]
    rintro rfl
    exact h v hkv

theorem lookup_filter_ne [DecidableEq α] {a p : α} :
    (l.filter fun kv => kv.1 ≠ p).lookup a = if a = p then none else l.lookup a := by
  induction l with
  | nil => simp
  | cons kv rest ih =>
    obtain ⟨k, v⟩ := kv
    by_cases hk : k = p
    · subst hk
      rw [List.filter_cons_of_neg (by simp), ih, List.lookup_cons]
      split_ifs with hak
      · rfl
      · rw [show (a == k) = false by simpa using hak]
    · rw [List.filter_cons_of_pos (by simpa using hk), List.lookup_cons, List.lookup_cons, ih]
      by_cases hak : a = k
      · subst hak
        simp [hk]
      · rw [show (a == k) = false by simpa using hak]

end Lookup

theorem lookup_map {α β : Type} (f : α → β) (l : List (String × α)) (key : String) :
    (l.map fun kv => (kv.1, f kv.2)).lookup key = (l.lookup key).map f := by
  induction l with
  | nil => rfl
  | cons kv rest ih =>
    obtain ⟨k, a⟩ := kv
    rw [List.map_cons, List.lookup_cons, List.lookup_cons, ih]
    cases key == k <;> rfl

theorem mem_of_lookup {α : Type} {l : List (String × α)} {key : String} {a : α}
    (h : l.lookup key = some a) : (key, a) ∈ l := by
  obtain ⟨l₁, l₂, rfl, -⟩ := List.lookup_eq_some_iff.mp h
  simp

end Wazir
