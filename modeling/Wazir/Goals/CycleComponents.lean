import Wazir.Goals.GraphCycles
import Wazir.Shared.ComponentSearch

/-! `findCycles` takes the steps of the component search: its maps and frames are a form of the
search's state, and the components that it keeps are those with more than one member. -/

namespace Wazir.Goals.FindCycles

open Scc (State Inv Sound Components)

section Simulation

variable (edges : TargetId → List TargetId)

structure Like (frames : List Frame) (s : Search) (t : State TargetId) : Prop where
  counter : t.counter = s.counter
  index : ∀ v, t.index v = s.index.lookup v
  low : ∀ v, s.low.lookup v = (t.index v).map fun _ => t.low v
  work : t.work = frames.map fun f => (f.node, (edges f.node).drop f.edge)
  stack : t.stack = s.stack
  components : s.components = t.closed.filter fun c => 1 < c.length

variable {edges} {frames : List Frame} {s : Search} {t : State TargetId}

theorem Like.visit (h : Like edges frames s t) (v : TargetId) :
    Like edges (⟨v, 0⟩ :: frames) (s.visit v) (t.enter edges v) where
  counter := by simp [Search.visit, State.enter, h.counter]
  index w := by
    by_cases hw : w = v
    · subst hw
      simp [Search.visit, State.enter, h.counter]
    · simp [Search.visit, State.enter, hw, h.index]
  low w := by
    by_cases hw : w = v
    · subst hw
      simp [Search.visit, State.enter, h.counter]
    · simp [Search.visit, State.enter, hw, h.low]
  work := by simp [State.enter, h.work]
  stack := by simp [Search.visit, State.enter, h.stack]
  components := h.components

theorem Like.lower (h : Like edges frames s t) {p : TargetId} (hp : t.Visited p) (k : ℕ) :
    Like edges frames (s.lower p (some k)) (t.lower p k) := by
  obtain ⟨i, hi⟩ := Option.isSome_iff_exists.1 hp
  have hlow : s.low.lookup p = some (t.low p) := by simp [h.low, hi]
  have hlower : s.lower p (some k) = { s with low := s.low.insert p (min (t.low p) k) } := by
    simp [Search.lower, hlow]
  rw [hlower]
  exact
    { h with
      low := fun w => by
        by_cases hw : w = p
        · subst hw
          simp [State.lower, hi]
        · simp [State.lower, hw, h.low] }

theorem Like.close (h : Like edges frames s t) {v : TargetId} (hv : t.Visited v)
    (hs : v ∈ t.stack) :
    Like edges frames (s.close v) (if t.index v = some (t.low v) then t.close v else t) := by
  obtain ⟨i, hi⟩ := Option.isSome_iff_exists.1 hv
  have hlow : s.low.lookup v = some (t.low v) := by simp [h.low, hi]
  by_cases heq : t.index v = some (t.low v)
  · obtain ⟨above, hcomp, hstack⟩ := Inv.stack_split hs
    have hlist : s.stack.takeWhile (· ≠ v) ++ [v] = t.component v := by rw [State.component, h.stack]
    have hdrop : s.stack.drop (t.component v).length = t.below v := by
      rw [hcomp, ← h.stack]
      nth_rewrite 1 [hstack]
      simp
    rw [if_pos heq, Search.close, if_pos (by rw [hlow, ← h.index, heq])]
    simp only [hlist, hdrop]
    refine { h with stack := rfl, components := ?_ }
    simp only [State.close, List.filter_append, ← h.components]
    split_ifs with hlen
    · simp [hlen]
    · simp [hlen]
  · rw [if_neg heq, Search.close, if_neg (by rw [hlow, ← h.index, eq_comm]; exact heq)]
    exact h

/-- One turn of the loop is one step of the search. -/
theorem Like.turn {frame : Frame} {rest : List Frame} (h : Like edges (frame :: rest) s t)
    (hinv : Inv edges t) :
    Like edges (turn edges frame rest s).1 (turn edges frame rest s).2 (t.step edges) := by
  have hw : t.work = (frame.node, (edges frame.node).drop frame.edge) ::
      rest.map fun f => (f.node, (edges f.node).drop f.edge) := h.work
  have hstack : frame.node ∈ t.stack := hinv.gray_stack _ (by simp [State.gray, hw])
  have hvisited := hinv.stack_visited _ hstack
  rcases hn : (edges frame.node)[frame.edge]? with - | next
  · have hdrop : (edges frame.node).drop frame.edge = [] := by
      rw [List.drop_eq_nil_iff]
      exact List.getElem?_eq_none_iff.1 hn
    rw [hdrop] at hw
    have hstep : t.step edges = t.finish frame.node := by simp [State.step, hw]
    obtain ⟨i, hi⟩ := Option.isSome_iff_exists.1 hvisited
    have hlow : s.low.lookup frame.node = some (t.low frame.node) := by simp [h.low, hi]
    -- the parent takes over how far the node reaches
    have hpass : ∃ s', FindCycles.turn edges frame rest s = (rest, s'.close frame.node) ∧
        Like edges (frame :: rest) s' (t.passLow frame.node) := by
      cases rest with
      | nil => exact ⟨s, by simp [FindCycles.turn, hn], by simpa [State.passLow, hw] using h⟩
      | cons parent below =>
        have hp : t.Visited parent.node := hinv.stack_visited _ <| hinv.gray_stack _ <| by
          simp [State.gray, hw]
        exact ⟨_, by simp [FindCycles.turn, hn]; rfl,
          by simpa [State.passLow, hw, hlow] using h.lower hp (t.low frame.node)⟩
    obtain ⟨s', hturn, hpass⟩ := hpass
    have hleave : Like edges rest s' (t.passLow frame.node).leave :=
      { hpass with work := by simp [State.leave, hpass.work] }
    obtain ⟨hpindex, -, hpstack, -⟩ := Scc.passLow_same t frame.node
    have hclose := hleave.close (v := frame.node)
      (by simpa [State.Visited, State.leave, hpindex] using hvisited)
      (by simpa [State.leave, hpstack] using hstack)
    rw [hstep, hturn]
    exact hclose
  · have hlt : frame.edge < (edges frame.node).length := (List.getElem?_eq_some_iff.1 hn).1
    have hdrop : (edges frame.node).drop frame.edge =
        next :: (edges frame.node).drop (frame.edge + 1) := by
      rw [List.drop_eq_getElem_cons hlt, (List.getElem?_eq_some_iff.1 hn).2]
    rw [hdrop] at hw
    have htop : Like edges (⟨frame.node, frame.edge + 1⟩ :: rest) s
        (t.onTop (frame.node, (edges frame.node).drop (frame.edge + 1))) :=
      { h with work := by simp [State.onTop, hw] }
    simp only [FindCycles.turn, hn, State.step, hw, h.index]
    rcases Option.eq_none_or_eq_some (s.index.lookup next) with hk | ⟨k, hk⟩
    · simpa [hk] using htop.visit next
    · simp only [hk, Option.isNone_some, Bool.false_eq_true, if_false, h.stack]
      split_ifs with hs
      · exact htop.lower hvisited k
      · exact htop

variable {ids : List TargetId}

theorem Like.search (hids : ids.Nodup) (hedges : ∀ v ∈ ids, ∀ w ∈ edges v, w ∈ ids) (fuel : ℕ)
    (h : Like edges frames s t) (hs : Sound edges ids t) :
    ∃ frames', Like edges frames' (search edges fuel frames s) (t.run edges fuel) := by
  induction fuel generalizing frames s t with
  | zero => exact ⟨frames, h⟩
  | succ fuel ih =>
    cases frames with
    | nil =>
      rw [Scc.run_done (by simpa using h.work)]
      exact ⟨[], h⟩
    | cons frame rest => exact ih (h.turn hs.inv) (hs.step hids hedges).1

/-- The loop over the roots. -/
theorem Like.roots (hids : ids.Nodup) (hedges : ∀ v ∈ ids, ∀ w ∈ edges v, w ∈ ids) {fuel : ℕ}
    (roots : List TargetId) (hroots : ∀ r ∈ roots, r ∈ ids) (h : Like edges [] s t)
    (hs : Sound edges ids t) (hle : t.left edges ids ≤ fuel) :
    Like edges [] (roots.foldl (fun s root => if (s.index.lookup root).isSome then s
      else FindCycles.search edges fuel [⟨root, 0⟩] (s.visit root)) s)
      (roots.foldl (State.visit edges fuel) t) := by
  induction roots generalizing s t with
  | nil => exact h
  | cons root roots ih =>
    have hw : t.work = [] := by simpa using h.work
    have hroot := hroots root List.mem_cons_self
    obtain ⟨hs', hw', hle', -⟩ := hs.visit hids hedges fuel [root] (by simpa using hroot) hw hle
    simp only [List.foldl_cons, List.foldl_nil] at hs' hw' hle' ⊢
    refine ih (fun r hr => hroots r (List.mem_cons_of_mem _ hr)) ?_ hs' hle'
    rcases hk : t.index root with - | k
    · have hentered := (hs.enter hw hk hroot hids).1
      obtain ⟨frames', hf⟩ := (h.visit root).search hids hedges fuel hentered
      have hvisit : t.visit edges fuel root = (t.enter edges root).run edges fuel := by
        simp [State.visit, hk]
      rw [hvisit] at hw' ⊢
      have hnil : frames' = [] := by simpa [hw'] using hf.work.symm
      simpa [← h.index, hk] using hnil ▸ hf
    · simpa [State.visit, ← h.index, hk] using h

end Simulation

/-- The components that `findCycles` goes over. -/
theorem components_spec {edges : TargetId → List TargetId} {ids : List TargetId}
    (hids : ids.Nodup) (hedges : ∀ v ∈ ids, ∀ w ∈ edges v, w ∈ ids) :
    ∃ closed, Components edges ids closed ∧
      components edges ids = closed.filter fun c => 1 < c.length := by
  have hstart : Like edges [] ⟨0, ∅, ∅, [], []⟩ State.start :=
    ⟨rfl, fun v => rfl, fun v => rfl, rfl, rfl, rfl⟩
  have hle := Scc.start_left edges ids
  have hroots : ∀ v, v ∈ sortBy compareStrings ids ↔ v ∈ ids := fun v => mem_sortBy
  refine ⟨_, Scc.components_of_visit hids hedges le_self_add hroots,
    (hstart.roots hids hedges _ (fun r hr => (hroots r).1 hr) (Scc.sound_start edges ids)
      (hle.trans le_self_add)).components⟩

end Wazir.Goals.FindCycles
