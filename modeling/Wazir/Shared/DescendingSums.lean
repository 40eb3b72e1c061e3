import Mathlib.Algebra.Order.BigOperators.Group.List
import Mathlib.Data.List.Sort

/-! Sums of descending lists: no sublist sums to more than the first members of the list. -/

namespace Wazir

variable {α : Type*} [AddCommMonoid α] [Preorder α] [AddLeftMono α]

theorem sum_take_le_cons {a : α} {l : List α} (h : (a :: l).Pairwise (· ≥ ·)) {n : ℕ}
    (hn : n ≤ l.length) : (l.take n).sum ≤ ((a :: l).take n).sum := by
  induction n generalizing a l with
  | zero => simp
  | succ n ih =>
    cases l with
    | nil => cases hn
    | cons b l =>
      obtain ⟨hge, hrest⟩ := List.pairwise_cons.mp h
      have htake := ih hrest (Nat.le_of_succ_le_succ hn)
      calc ((b :: l).take (n + 1)).sum = b + (l.take n).sum := by simp
        _ ≤ b + ((b :: l).take n).sum := by gcongr
        _ ≤ a + ((b :: l).take n).sum := by gcongr; exact hge b List.mem_cons_self
        _ = ((a :: b :: l).take (n + 1)).sum := by simp

theorem sum_sublist_le_take {s l : List α} (hs : s.Sublist l) (hl : l.Pairwise (· ≥ ·)) :
    s.sum ≤ (l.take s.length).sum := by
  induction hs with
  | slnil => simp
  | cons a hs ih => exact (ih (List.Pairwise.of_cons hl)).trans (sum_take_le_cons hl hs.length_le)
  | cons_cons a hs ih =>
    have hrest := ih (List.Pairwise.of_cons hl)
    simp only [List.sum_cons, List.length_cons, List.take_succ_cons]
    gcongr

end Wazir
