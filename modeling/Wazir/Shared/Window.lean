import Mathlib.Data.List.Chain
import Mathlib.Tactic

/-! A bounded window of a growing log, and a reader that addresses the window by an index:
it remembers how many elements it saw and takes what comes after them. What it loses between
two reads is what left the window in the meantime, and everything once the window is full. -/

namespace Wazir

variable {α ε : Type} {k : ℕ}

/-- `l.slice(-k)`, for a positive `k`. -/
def lastN (k : ℕ) (l : List α) : List α := (l.reverse.take k).reverse

theorem lastN_eq_drop (k : ℕ) (l : List α) : lastN k l = l.drop (l.length - k) := by
  simp [lastN, List.reverse_take]

@[simp] theorem length_lastN (k : ℕ) (l : List α) : (lastN k l).length = min k l.length := by
  simp [lastN]

/-- Pushing to a window of `k + 1` keeps `k` of the old elements. -/
theorem lastN_push (k : ℕ) (l : List α) (a : α) :
    lastN k (lastN (k + 1) l) ++ [a] = lastN (k + 1) (l ++ [a]) := by
  simp [lastN, List.take_take]

/-- What the reader gets from the windows it finds at its reads. -/
def readFrom : ℕ → List (List α) → List α
  | _, [] => []
  | seen, w :: rest => w.drop seen ++ readFrom (max seen w.length) rest

/-- What was added since the previous read, when the log had `n` elements, and is gone. -/
def lostFrom (k : ℕ) : ℕ → List (List α) → List α
  | _, [] => []
  | n, s :: rest => (s.drop n).take (s.length - k) ++ lostFrom k s.length rest

/-- One read: the new elements are the lost ones and then those that are read. -/
theorem drop_eq_lost_append_read {p s : List α} (h : p <+: s) :
    s.drop p.length = (s.drop p.length).take (s.length - k) ++
      (lastN k s).drop (min k p.length) := by
  have hle := h.length_le
  have hread : (lastN k s).drop (min k p.length) = (s.drop p.length).drop (s.length - k) := by
    rw [lastN_eq_drop, List.drop_drop, List.drop_drop]
    rcases Nat.le_total k p.length with hk | hk
    · rw [List.drop_eq_nil_of_le (by omega), List.drop_eq_nil_of_le (by omega)]
    · rw [min_eq_right hk, Nat.add_comm]
  rw [hread, List.take_append_drop]

theorem prefix_getLastD {l : List α} {logs : List (List α)}
    (h : (l :: logs).IsChain (· <+: ·)) : l <+: logs.getLastD l := by
  induction logs generalizing l with
  | nil => exact List.prefix_refl l
  | cons s rest ih =>
    obtain ⟨hls, hrest⟩ := List.isChain_cons_cons.mp h
    rw [List.getLastD_cons]
    exact hls.trans (ih hrest)

/-- All that was added since `l`, read by read: lost elements, then elements that are read. -/
theorem added_step {l s : List α} {rest : List (List α)}
    (h : (l :: s :: rest).IsChain (· <+: ·)) :
    (rest.getLastD s).drop l.length = (s.drop l.length).take (s.length - k) ++
      (lastN k s).drop (min k l.length) ++ (rest.getLastD s).drop s.length := by
  obtain ⟨hls, hrest⟩ := List.isChain_cons_cons.mp h
  obtain ⟨t, ht⟩ := prefix_getLastD hrest
  rw [← drop_eq_lost_append_read hls, ← ht, List.drop_append_of_le_length hls.length_le,
    List.drop_left]

theorem seen_step {l s : List α} (h : l <+: s) :
    max (min k l.length) (lastN k s).length = min k s.length := by
  have := h.length_le
  rw [length_lastN]
  omega

section Filter

variable (p : α → Bool)

/-- Of a growing log, what is read and what is lost add up to what was added. -/
theorem readFrom_count {l : List α} {logs : List (List α)}
    (h : (l :: logs).IsChain (· <+: ·)) :
    ((readFrom (min k l.length) (logs.map (lastN k))).filter p).length +
      ((lostFrom k l.length logs).filter p).length =
        (((logs.getLastD l).drop l.length).filter p).length := by
  induction logs generalizing l with
  | nil => simp [readFrom, lostFrom]
  | cons s rest ih =>
    obtain ⟨hls, hrest⟩ := List.isChain_cons_cons.mp h
    have := ih hrest
    rw [List.getLastD_cons, added_step (k := k) h, List.map_cons, readFrom, lostFrom, seen_step hls]
    simp only [List.filter_append, List.length_append]
    omega

/-- With nothing lost, what is read is what was added, in order. -/
theorem readFrom_complete {l : List α} {logs : List (List α)}
    (h : (l :: logs).IsChain (· <+: ·)) (lost : (lostFrom k l.length logs).filter p = []) :
    (readFrom (min k l.length) (logs.map (lastN k))).filter p =
      ((logs.getLastD l).drop l.length).filter p := by
  induction logs generalizing l with
  | nil => simp [readFrom]
  | cons s rest ih =>
    obtain ⟨hls, hrest⟩ := List.isChain_cons_cons.mp h
    rw [lostFrom, List.filter_append, List.append_eq_nil_iff] at lost
    rw [List.getLastD_cons, added_step (k := k) h, List.map_cons, readFrom, seen_step hls]
    simp only [List.filter_append, lost.1, List.nil_append, ih hrest lost.2]

theorem readFrom_eq_iff {l : List α} {logs : List (List α)}
    (h : (l :: logs).IsChain (· <+: ·)) :
    (readFrom (min k l.length) (logs.map (lastN k))).filter p = ((logs.getLastD l).drop l.length).filter p ↔
      ∀ a ∈ lostFrom k l.length logs, p a = false := by
  have hnil : (lostFrom k l.length logs).filter p = [] ↔
      ∀ a ∈ lostFrom k l.length logs, p a = false := by simp [List.filter_eq_nil_iff]
  rw [← hnil]
  constructor
  · intro heq
    have hcount := readFrom_count (k := k) p h
    rw [heq] at hcount
    exact List.length_eq_zero_iff.mp (by omega)
  · exact readFrom_complete p h

end Filter

/-! A history in which some events add to the log and some are reads of it. -/

section History

variable (adds : ε → Option α) (reads : ε → Bool)

/-- The logs found by the reads of `es`, when the log is `l` at first. -/
def logsAt : List α → List ε → List (List α)
  | _, [] => []
  | l, e :: es =>
    if reads e then l :: logsAt (l ++ (adds e).toList) es else logsAt (l ++ (adds e).toList) es

theorem logsAt_append (l : List α) (es : List ε) (e : ε) :
    logsAt adds reads l (es ++ [e]) =
      logsAt adds reads l es ++ if reads e then [l ++ es.filterMap adds] else [] := by
  induction es generalizing l with
  | nil => simp [logsAt]
  | cons a es ih =>
    have hfm : (a :: es).filterMap adds = (adds a).toList ++ es.filterMap adds := by
      cases h : adds a <;> simp [h]
    simp only [List.cons_append, logsAt, ih, hfm, List.append_assoc]
    split_ifs <;> rfl

theorem logsAt_chain (l : List α) (es : List ε) :
    (l :: logsAt adds reads l es).IsChain (· <+: ·) := by
  induction es generalizing l with
  | nil => exact .singleton l
  | cons a es ih =>
    have hl : l <+: l ++ (adds a).toList := List.prefix_append ..
    have later : ∀ {l' : List α} {logs : List (List α)}, l <+: l' →
        (l' :: logs).IsChain (· <+: ·) → (l :: logs).IsChain (· <+: ·) := by
      intro l' logs hll h
      cases logs with
      | nil => exact .singleton l
      | cons s rest =>
        obtain ⟨hs, hrest⟩ := List.isChain_cons_cons.mp h
        exact List.isChain_cons_cons.mpr ⟨hll.trans hs, hrest⟩
    rw [logsAt]
    split_ifs
    · exact List.isChain_cons_cons.mpr ⟨List.prefix_refl l, later hl (ih _)⟩
    · exact later hl (ih _)

end History

end Wazir
