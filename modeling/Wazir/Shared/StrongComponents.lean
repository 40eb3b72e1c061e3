import Mathlib.Data.List.TakeWhile
import Mathlib.Logic.Function.Basic
import Mathlib.Logic.Relation
import Mathlib.Tactic

/-! Strongly connected components by a depth-first search that keeps its own stack: each turn takes
one edge of the node on top or leaves it. What is off the stack is closed under edges, and the lists
that were closed are the components. -/

namespace Wazir.Scc

structure State (V : Type) where
  counter : ℕ
  index : V → Option ℕ
  low : V → ℕ
  /-- The nodes under way, the last one first, each with the edges that it has still to take. -/
  work : List (V × List V)
  stack : List V
  closed : List (List V)

section Machine

variable {V : Type} [DecidableEq V] (edges : V → List V)

def State.start : State V := ⟨0, fun _ => none, fun _ => 0, [], [], []⟩

/-- A new node. -/
def State.enter (s : State V) (v : V) : State V :=
  { s with
    counter := s.counter + 1
    index := Function.update s.index v (some s.counter)
    low := Function.update s.low v s.counter
    work := (v, edges v) :: s.work
    stack := v :: s.stack }

def State.lower (s : State V) (v : V) (k : ℕ) : State V :=
  { s with low := Function.update s.low v (min (s.low v) k) }

/-- The frame on top is replaced. -/
def State.onTop (s : State V) (frame : V × List V) : State V :=
  { s with work := frame :: s.work.tail }

def State.leave (s : State V) : State V := { s with work := s.work.tail }

/-- The nodes of the stack down to `v`. -/
def State.component (s : State V) (v : V) : List V := s.stack.takeWhile (· ≠ v) ++ [v]

def State.below (s : State V) (v : V) : List V := (s.stack.dropWhile (· ≠ v)).tail

def State.close (s : State V) (v : V) : State V :=
  { s with
    stack := s.below v
    closed := s.closed ++ [s.component v] }

/-- The node below takes over how far the one on top reaches. -/
def State.passLow (s : State V) (v : V) : State V :=
  match s.work.tail with
  | [] => s
  | (p, _) :: _ => s.lower p (s.low v)

def State.finish (s : State V) (v : V) : State V :=
  let s := (s.passLow v).leave
  if s.index v = some (s.low v) then s.close v else s

def State.step (s : State V) : State V :=
  match s.work with
  | [] => s
  | (v, []) :: _ => s.finish v
  | (v, next :: rest) :: _ =>
    let taken := s.onTop (v, rest)
    match s.index next with
    | none => taken.enter edges next
    | some k => if next ∈ s.stack then taken.lower v k else taken

end Machine

section Invariant

variable {V : Type} (edges : V → List V)

def Edge (v w : V) : Prop := w ∈ edges v

abbrev Reach : V → V → Prop := Relation.ReflTransGen (Edge edges)

namespace State

variable (s : State V)

def num (v : V) : ℕ := (s.index v).getD 0

def Visited (v : V) : Prop := (s.index v).isSome

/-- The nodes under way. -/
def gray : List V := s.work.map Prod.fst

/-- The edge is not among those that its node has still to take. -/
def Taken (v w : V) : Prop := w ∈ edges v ∧ ∀ rest, (v, rest) ∈ s.work → w ∉ rest

end State

structure Inv (s : State V) : Prop where
  index_lt : ∀ v k, s.index v = some k → k < s.counter
  stack_visited : ∀ v ∈ s.stack, s.Visited v
  /-- The stack and the nodes under way are in the order in which they were visited. -/
  stack_sorted : s.stack.Pairwise fun v w => s.num w < s.num v
  gray_sorted : s.gray.Pairwise fun v w => s.num w < s.num v
  gray_stack : ∀ v ∈ s.gray, v ∈ s.stack
  rest_edges : ∀ frame ∈ s.work, ∀ w ∈ frame.2, w ∈ edges frame.1
  done_closed : ∀ v, s.Visited v → v ∉ s.stack → ∀ w ∈ edges v, s.Visited w ∧ w ∉ s.stack
  taken_visited : ∀ v ∈ s.stack, ∀ w, s.Taken edges v w → s.Visited w
  low_le : ∀ v ∈ s.stack, s.low v ≤ s.num v
  low_lt : ∀ v ∈ s.stack, v ∉ s.gray → s.low v < s.num v
  low_reach : ∀ v ∈ s.stack, ∃ w ∈ s.stack, s.num w = s.low v ∧ Reach edges v w
  /-- An edge that was taken counts in the `low` of a node under way, one that is not below the
  nearest one under way. -/
  low_taken : ∀ v ∈ s.stack, ∀ w ∈ s.stack, s.Taken edges v w →
    ∃ q ∈ s.gray, s.low q ≤ s.num w ∧ ∀ p ∈ s.gray, s.num p ≤ s.num v → s.num p ≤ s.num q
  gray_reach : ∀ p ∈ s.gray, ∀ v ∈ s.stack, s.num p ≤ s.num v → Reach edges p v
  gray_below : ∀ v ∈ s.stack, ∃ p ∈ s.gray, s.num p ≤ s.num v

namespace Inv

variable {edges} {s : State V}

theorem num_inj (h : Inv edges s) {v w : V} (hv : v ∈ s.stack) (hw : w ∈ s.stack)
    (hn : s.num v = s.num w) : v = w := by
  have hnd : (s.stack.map s.num).Nodup :=
    (List.pairwise_map.2 h.stack_sorted).imp fun hlt => (Nat.ne_of_lt hlt).symm
  exact List.inj_on_of_nodup_map hnd hv hw hn

theorem frame_unique (h : Inv edges s) {v : V} {r r' : List V} (hr : (v, r) ∈ s.work)
    (hr' : (v, r') ∈ s.work) : r = r' := by
  have hnd : s.gray.Nodup := h.gray_sorted.imp fun hlt he => by simp [he] at hlt
  exact (Prod.ext_iff.1 (List.inj_on_of_nodup_map hnd hr hr' rfl)).2

theorem num_lt (h : Inv edges s) {v : V} (hv : v ∈ s.stack) : s.num v < s.counter := by
  obtain ⟨k, hk⟩ := Option.isSome_iff_exists.1 (h.stack_visited v hv)
  simpa [State.num, hk] using h.index_lt v k hk

theorem gray_le_top (h : Inv edges s) {v p : V} {r : List V} {work : List (V × List V)}
    (hw : s.work = (v, r) :: work) (hp : p ∈ s.gray) : s.num p ≤ s.num v := by
  have hs := h.gray_sorted
  simp only [State.gray, hw, List.map_cons, List.pairwise_cons, List.mem_cons] at hs hp
  rcases hp with rfl | hp
  · exact le_rfl
  · exact (hs.1 p hp).le

end Inv

theorem inv_start : Inv edges (State.start : State V) := by
  constructor <;> simp [State.start, State.gray, State.Visited]

end Invariant

section Steps

variable {V : Type} [DecidableEq V] {edges : V → List V} {s : State V}

namespace Inv

theorem enter (h : Inv edges s) {v : V} (hv : s.index v = none)
    (hreach : ∀ p ∈ s.gray, Reach edges p v) : Inv edges (s.enter edges v) := by
  have hne : ∀ w, s.Visited w → w ≠ v := by
    rintro w hw rfl
    simp [State.Visited, hv] at hw
  have hstack : ∀ w ∈ s.stack, w ≠ v := fun w hw => hne w (h.stack_visited w hw)
  have hgray : ∀ w ∈ s.gray, w ≠ v := fun w hw => hstack w (h.gray_stack w hw)
  have hindex : ∀ w, w ≠ v → (s.enter edges v).index w = s.index w := fun w hw => by
    simp [State.enter, hw]
  have hlow : ∀ w, w ≠ v → (s.enter edges v).low w = s.low w := fun w hw => by
    simp [State.enter, hw]
  have hnum : ∀ w, w ≠ v → (s.enter edges v).num w = s.num w := fun w hw => by
    simp [State.num, hindex w hw]
  have hnumv : (s.enter edges v).num v = s.counter := by simp [State.num, State.enter]
  have hlowv : (s.enter edges v).low v = s.counter := by simp [State.enter]
  have hvisited : ∀ w, (s.enter edges v).Visited w ↔ w = v ∨ s.Visited w := fun w => by
    by_cases hw : w = v
    · simp [hw, State.Visited, State.enter]
    · simp [hw, State.Visited, hindex w hw]
  -- no edge of the new node is taken, and no other node takes one
  have htaken : ∀ x w, (s.enter edges v).Taken edges x w → x ≠ v ∧ s.Taken edges x w := by
    rintro x w ⟨hw, hrest⟩
    refine ⟨?_, hw, fun rest hr => hrest rest (List.mem_cons_of_mem _ hr)⟩
    rintro rfl
    exact hrest (edges x) List.mem_cons_self hw
  have hstack' : (s.enter edges v).stack = v :: s.stack := rfl
  have hgray' : (s.enter edges v).gray = v :: s.gray := rfl
  constructor
  · intro w k hk
    by_cases hw : w = v
    · subst hw
      simp only [State.enter, Function.update_self, Option.some.injEq] at hk
      simp [State.enter, ← hk]
    · rw [hindex w hw] at hk
      exact Nat.lt_succ_of_lt (h.index_lt w k hk)
  · intro w hw
    rw [hstack', List.mem_cons] at hw
    exact (hvisited w).2 (hw.imp_right (h.stack_visited w))
  · rw [hstack', List.pairwise_cons]
    refine ⟨fun w hw => ?_, h.stack_sorted.imp_of_mem fun {a b} ha hb hab => ?_⟩
    · rw [hnum w (hstack w hw), hnumv]
      exact h.num_lt hw
    · rwa [hnum a (hstack a ha), hnum b (hstack b hb)]
  · rw [hgray', List.pairwise_cons]
    refine ⟨fun w hw => ?_, h.gray_sorted.imp_of_mem fun {a b} ha hb hab => ?_⟩
    · rw [hnum w (hgray w hw), hnumv]
      exact h.num_lt (h.gray_stack w hw)
    · rwa [hnum a (hgray a ha), hnum b (hgray b hb)]
  · intro w hw
    rw [hgray', List.mem_cons] at hw
    rw [hstack', List.mem_cons]
    exact hw.imp_right (h.gray_stack w)
  · intro frame hf w hw
    rcases List.mem_cons.1 hf with rfl | hf
    · exact hw
    · exact h.rest_edges frame hf w hw
  · intro x hx hns w hw
    rw [hstack', List.mem_cons, not_or] at hns
    have hc := h.done_closed x (((hvisited x).1 hx).resolve_left hns.1) hns.2 w hw
    refine ⟨(hvisited w).2 (.inr hc.1), ?_⟩
    rw [hstack', List.mem_cons, not_or]
    exact ⟨hne w hc.1, hc.2⟩
  · intro x hx w hw
    obtain ⟨hxv, ht⟩ := htaken x w hw
    rw [hstack', List.mem_cons] at hx
    exact (hvisited w).2 (.inr (h.taken_visited x (hx.resolve_left hxv) w ht))
  · intro w hw
    rw [hstack', List.mem_cons] at hw
    rcases hw with rfl | hw
    · rw [hlowv, hnumv]
    · rw [hlow w (hstack w hw), hnum w (hstack w hw)]
      exact h.low_le w hw
  · intro w hw hng
    rw [hgray', List.mem_cons, not_or] at hng
    rw [hstack', List.mem_cons] at hw
    rw [hlow w hng.1, hnum w hng.1]
    exact h.low_lt w (hw.resolve_left hng.1) hng.2
  · intro w hw
    rw [hstack', List.mem_cons] at hw
    rcases hw with rfl | hw
    · exact ⟨w, List.mem_cons_self, by rw [hlowv, hnumv], .refl⟩
    · obtain ⟨u, hu, hun, hur⟩ := h.low_reach w hw
      refine ⟨u, List.mem_cons_of_mem _ hu, ?_, hur⟩
      rwa [hnum u (hstack u hu), hlow w (hstack w hw)]
  · intro x hx w hw ht
    obtain ⟨hxv, ht⟩ := htaken x w ht
    rw [hstack', List.mem_cons] at hx hw
    have hxs := hx.resolve_left hxv
    have hwv : w ≠ v := hne w (h.taken_visited x hxs w ht)
    obtain ⟨q, hq, hqw, hqp⟩ := h.low_taken x hxs w (hw.resolve_left hwv) ht
    refine ⟨q, List.mem_cons_of_mem _ hq, ?_, fun p hp hpx => ?_⟩
    · rwa [hlow q (hgray q hq), hnum w hwv]
    · rw [hgray', List.mem_cons] at hp
      rcases hp with rfl | hp
      · rw [hnumv, hnum x hxv] at hpx
        have := h.num_lt hxs
        omega
      · rw [hnum p (hgray p hp)] at hpx ⊢
        rw [hnum x hxv] at hpx
        rw [hnum q (hgray q hq)]
        exact hqp p hp hpx
  · intro p hp x hx hpx
    rw [hgray', List.mem_cons] at hp
    rw [hstack', List.mem_cons] at hx
    rcases hp with rfl | hp <;> rcases hx with rfl | hx
    · exact .refl
    · rw [hnumv, hnum x (hstack x hx)] at hpx
      have := h.num_lt hx
      omega
    · exact hreach p hp
    · rw [hnum p (hgray p hp), hnum x (hstack x hx)] at hpx
      exact h.gray_reach p hp x hx hpx
  · intro x hx
    rw [hstack', List.mem_cons] at hx
    rcases hx with rfl | hx
    · exact ⟨x, List.mem_cons_self, le_rfl⟩
    · obtain ⟨p, hp, hpx⟩ := h.gray_below x hx
      refine ⟨p, List.mem_cons_of_mem _ hp, ?_⟩
      rwa [hnum p (hgray p hp), hnum x (hstack x hx)]

/-- How far a node reaches can be lowered to the number of a node on the stack that it reaches. -/
theorem lower (h : Inv edges s) {p w : V} (hw : w ∈ s.stack) (hr : Reach edges p w) :
    Inv edges (s.lower p (s.num w)) := by
  have hle : ∀ x, (s.lower p (s.num w)).low x ≤ s.low x := fun x => by
    by_cases hx : x = p
    · subst hx
      simp [State.lower]
    · simp [State.lower, hx]
  exact
    { h with
      low_le := fun x hx => (hle x).trans (h.low_le x hx)
      low_lt := fun x hx hg => (hle x).trans_lt (h.low_lt x hx hg)
      low_reach := fun x hx => by
        by_cases hxp : x = p
        · subst hxp
          obtain ⟨u, hu, hun, hur⟩ := h.low_reach x hx
          rcases le_total (s.low x) (s.num w) with hmin | hmin
          · refine ⟨u, hu, ?_, hur⟩
            simp only [State.lower, Function.update_self, min_eq_left hmin]
            exact hun
          · refine ⟨w, hw, ?_, hr⟩
            simp only [State.lower, Function.update_self, min_eq_right hmin]
            rfl
        · obtain ⟨u, hu, hun, hur⟩ := h.low_reach x hx
          refine ⟨u, hu, ?_, hur⟩
          simp only [State.lower, Function.update_of_ne hxp]
          exact hun
      low_taken := fun x hx u hu ht => by
        obtain ⟨q, hq, hqu, hqp⟩ := h.low_taken x hx u hu ht
        exact ⟨q, hq, (hle q).trans hqu, hqp⟩ }

/-- The next edge of a node under way is taken. -/
theorem take (h : Inv edges s) (above : List (V × List V)) {below : List (V × List V)}
    {v next : V} {rest : List V}
    (hw : s.work = above ++ (v, next :: rest) :: below) (hvisited : s.Visited next)
    (hlow : next ∈ s.stack → s.low v ≤ s.num next) :
    Inv edges { s with work := above ++ (v, rest) :: below } := by
  set t : State V := { s with work := above ++ (v, rest) :: below } with ht
  have hgray : t.gray = s.gray := by simp [State.gray, hw, ht]
  have hv : (v, next :: rest) ∈ s.work := by simp [hw]
  have hvgray : v ∈ s.gray := List.mem_map_of_mem hv
  have htaken : ∀ x w, t.Taken edges x w → s.Taken edges x w ∨ x = v ∧ w = next := by
    rintro x w ⟨hxw, hrest⟩
    by_cases hx : x = v
    · subst hx
      by_cases hn : w = next
      · exact .inr ⟨rfl, hn⟩
      · refine .inl ⟨hxw, fun r hr => ?_⟩
        rw [h.frame_unique hr hv, List.mem_cons, not_or]
        exact ⟨hn, hrest rest (by simp [ht])⟩
    · refine .inl ⟨hxw, fun r hr => hrest r ?_⟩
      simpa [ht, hw, hx] using hr
  exact
    { h with
      gray_sorted := hgray ▸ h.gray_sorted
      gray_stack := hgray ▸ h.gray_stack
      rest_edges := fun frame hf w hwf => by
        rcases List.mem_append.1 hf with hf | hf
        · exact h.rest_edges frame (by simp [hw, hf]) w hwf
        · rcases List.mem_cons.1 hf with rfl | hf
          · exact h.rest_edges _ hv w (List.mem_cons_of_mem _ hwf)
          · exact h.rest_edges frame (by simp [hw, hf]) w hwf
      taken_visited := fun x hx w hxw => by
        rcases htaken x w hxw with hxw | ⟨-, rfl⟩
        · exact h.taken_visited x hx w hxw
        · exact hvisited
      low_lt := hgray ▸ h.low_lt
      low_taken := fun x hx w hws hxw => by
        rw [hgray]
        rcases htaken x w hxw with hxw | ⟨rfl, rfl⟩
        · exact h.low_taken x hx w hws hxw
        · exact ⟨x, hvgray, hlow hws, fun p _ hp => hp⟩
      gray_reach := hgray ▸ h.gray_reach
      gray_below := hgray ▸ h.gray_below }

omit [DecidableEq V] in
theorem taken_tail {v : V} {work : List (V × List V)} (hw : s.work = (v, []) :: work) {x w : V}
    {t : State V} (ht : t.work = work) : t.Taken edges x w ↔ s.Taken edges x w := by
  simp only [State.Taken, hw, ht, List.mem_cons, Prod.mk.injEq, and_congr_right_iff]
  refine fun _ => ⟨fun hr r hr' => ?_, fun hr r hr' => hr r (.inr hr')⟩
  rcases hr' with ⟨-, rfl⟩ | hr'
  · exact List.not_mem_nil
  · exact hr r hr'

/-- A node that has no edge left and reaches below itself is left on the stack. -/
theorem leave (h : Inv edges s) {v p : V} {r : List V} {work : List (V × List V)}
    (hw : s.work = (v, []) :: (p, r) :: work) (hlt : s.low v < s.num v) (hp : s.low p ≤ s.low v) :
    Inv edges s.leave := by
  have hgray : s.gray = v :: s.leave.gray := by simp [State.gray, State.leave, hw]
  have hpgray : p ∈ s.leave.gray := by simp [State.gray, State.leave, hw]
  have hsub : ∀ x ∈ s.leave.gray, x ∈ s.gray := fun x hx => hgray ▸ List.mem_cons_of_mem _ hx
  have hsorted := h.gray_sorted
  rw [hgray, List.pairwise_cons] at hsorted
  have hptop : ∀ x ∈ s.leave.gray, s.num x ≤ s.num p := by
    intro x hx
    have hrest := hsorted.2
    simp only [State.gray, State.leave, hw, List.tail_cons, List.map_cons, List.pairwise_cons,
      List.mem_cons] at hrest hx
    rcases hx with rfl | hx
    · exact le_rfl
    · exact (hrest.1 x hx).le
  have htaken : ∀ x w, s.leave.Taken edges x w ↔ s.Taken edges x w := fun x w =>
    taken_tail hw (by simp [State.leave, hw])
  exact
    { h with
      gray_sorted := hsorted.2
      gray_stack := fun x hx => h.gray_stack x (hsub x hx)
      rest_edges := fun frame hf => h.rest_edges frame (List.mem_of_mem_tail hf)
      taken_visited := fun x hx w hxw => h.taken_visited x hx w ((htaken x w).1 hxw)
      low_lt := fun x hx hg => by
        by_cases hxv : x = v
        · exact hxv ▸ hlt
        · exact h.low_lt x hx (by simp [hgray, hxv, hg])
      low_taken := fun x hx w hws hxw => by
        obtain ⟨q, hq, hqw, hqp⟩ := h.low_taken x hx w hws ((htaken x w).1 hxw)
        rw [hgray, List.mem_cons] at hq
        rcases hq with rfl | hq
        · exact ⟨p, hpgray, hp.trans hqw, fun y hy _ => hptop y hy⟩
        · exact ⟨q, hq, hqw, fun y hy => hqp y (hsub y hy)⟩
      gray_reach := fun x hx => h.gray_reach x (hsub x hx)
      gray_below := fun x hx => by
        obtain ⟨y, hy, hyx⟩ := h.gray_below x hx
        rw [hgray, List.mem_cons] at hy
        rcases hy with rfl | hy
        · exact ⟨p, hpgray, (hsorted.1 p hpgray).le.trans hyx⟩
        · exact ⟨y, hy, hyx⟩ }

omit [DecidableEq V] in
private theorem notEq_of_not_mem {above : List V} {v : V} [DecidableEq V] (hv : v ∉ above) :
    ∀ x ∈ above, decide (x ≠ v) = true := fun x hx => by
  simp only [decide_eq_true_eq]
  exact fun hxv => hv (hxv ▸ hx)

theorem stack_split {v : V} (hv : v ∈ s.stack) :
    ∃ above, s.component v = above ++ [v] ∧ s.stack = above ++ v :: s.below v := by
  obtain ⟨above, below, hs, hna⟩ := List.eq_append_cons_of_mem hv
  have hne := notEq_of_not_mem hna
  refine ⟨above, ?_, ?_⟩
  · rw [State.component, hs, List.takeWhile_append_of_pos hne, List.takeWhile_cons_of_neg (by simp),
      List.append_nil]
  · rw [State.below, hs, List.dropWhile_append_of_pos hne, List.dropWhile_cons_of_neg (by simp),
      List.tail_cons]

theorem component_le (h : Inv edges s) {v x : V} (hv : v ∈ s.stack) (hx : x ∈ s.component v) :
    s.num v ≤ s.num x := by
  obtain ⟨above, hc, hs⟩ := stack_split hv
  have hsorted := h.stack_sorted
  rw [hs, List.pairwise_append] at hsorted
  rw [hc, List.mem_append, List.mem_singleton] at hx
  rcases hx with hx | rfl
  · exact (hsorted.2.2 x hx v List.mem_cons_self).le
  · exact le_rfl

theorem below_lt (h : Inv edges s) {v x : V} (hv : v ∈ s.stack) (hx : x ∈ s.below v) :
    s.num x < s.num v := by
  obtain ⟨above, -, hs⟩ := stack_split hv
  have hsorted := h.stack_sorted
  rw [hs, List.pairwise_append, List.pairwise_cons] at hsorted
  exact hsorted.2.1.1 x hx

theorem mem_stack_iff {v x : V} (hv : v ∈ s.stack) :
    x ∈ s.stack ↔ x ∈ s.component v ∨ x ∈ s.below v := by
  obtain ⟨above, hc, hs⟩ := stack_split hv
  rw [hc]
  nth_rewrite 1 [hs]
  simp [or_assoc]

theorem mem_component (h : Inv edges s) {v x : V} (hv : v ∈ s.stack) :
    x ∈ s.component v ↔ x ∈ s.stack ∧ s.num v ≤ s.num x := by
  refine ⟨fun hx => ⟨?_, h.component_le hv hx⟩, fun ⟨hx, hle⟩ => ?_⟩
  · exact (mem_stack_iff hv).2 (.inl hx)
  · exact ((mem_stack_iff hv).1 hx).resolve_right fun hb => absurd (h.below_lt hv hb) (by omega)

theorem mem_below (h : Inv edges s) {v x : V} (hv : v ∈ s.stack) :
    x ∈ s.below v ↔ x ∈ s.stack ∧ s.num x < s.num v := by
  refine ⟨fun hx => ⟨?_, h.below_lt hv hx⟩, fun ⟨hx, hlt⟩ => ?_⟩
  · exact (mem_stack_iff hv).2 (.inr hx)
  · exact ((mem_stack_iff hv).1 hx).resolve_left fun hc =>
      absurd (h.component_le hv hc) (by omega)

section Close

variable {v : V} {work : List (V × List V)}

/-- Every edge of a node of the component was taken, and none goes below it. -/
theorem component_closed (h : Inv edges s) (hw : s.work = (v, []) :: work)
    (heq : s.low v = s.num v) {x w : V} (hx : x ∈ s.component v) (hxw : w ∈ edges x) :
    s.Visited w ∧ (w ∈ s.stack → w ∈ s.component v) := by
  have hvgray : v ∈ s.gray := by simp [State.gray, hw]
  have hv := h.gray_stack v hvgray
  obtain ⟨hxs, hvx⟩ := (h.mem_component hv).1 hx
  have htaken : s.Taken edges x w := by
    refine ⟨hxw, fun r hr => ?_⟩
    have hxv : x = v := h.num_inj hxs hv <|
      (h.gray_le_top hw (List.mem_map_of_mem hr)).antisymm hvx
    subst hxv
    rw [h.frame_unique hr (by rw [hw]; exact List.mem_cons_self)]
    exact List.not_mem_nil
  refine ⟨h.taken_visited x hxs w htaken, fun hws => (h.mem_component hv).2 ⟨hws, ?_⟩⟩
  obtain ⟨q, hq, hqw, hqp⟩ := h.low_taken x hxs w hws htaken
  have hqv : q = v := h.num_inj (h.gray_stack q hq) hv <|
    (h.gray_le_top hw hq).antisymm (hqp v hvgray hvx)
  rw [hqv, heq] at hqw
  exact hqw

theorem component_or_done (h : Inv edges s) (hw : s.work = (v, []) :: work)
    (heq : s.low v = s.num v) {x y : V} (hx : x ∈ s.component v ∨ s.Visited x ∧ x ∉ s.stack)
    (hr : Reach edges x y) : y ∈ s.component v ∨ s.Visited y ∧ y ∉ s.stack := by
  induction hr with
  | refl => exact hx
  | @tail y z _ hyz ih =>
    rcases ih with hy | ⟨hy, hns⟩
    · obtain ⟨hz, hc⟩ := h.component_closed hw heq hy hyz
      by_cases hzs : z ∈ s.stack
      · exact .inl (hc hzs)
      · exact .inr ⟨hz, hzs⟩
    · exact .inr (h.done_closed _ hy hns _ hyz)

/-- What is closed is the strongly connected component of its root. -/
theorem component_scc (h : Inv edges s) (hw : s.work = (v, []) :: work)
    (heq : s.low v = s.num v) (x : V) :
    x ∈ s.component v ↔ Reach edges v x ∧ Reach edges x v := by
  have hvgray : v ∈ s.gray := by simp [State.gray, hw]
  have hv := h.gray_stack v hvgray
  have hvc : v ∈ s.component v := (h.mem_component hv).2 ⟨hv, le_rfl⟩
  constructor
  · intro hx
    obtain ⟨hxs, hvx⟩ := (h.mem_component hv).1 hx
    refine ⟨h.gray_reach v hvgray x hxs hvx, ?_⟩
    -- each node of the component but the root reaches one that was visited before it
    induction hn : s.num x using Nat.strong_induction_on generalizing x with
    | _ n ih =>
      by_cases hxv : x = v
      · exact hxv ▸ .refl
      have hng : x ∉ s.gray := fun hg =>
        hxv (h.num_inj hxs hv ((h.gray_le_top hw hg).antisymm hvx))
      obtain ⟨w, hws, hwn, hxw⟩ := h.low_reach x hxs
      have hwc : w ∈ s.component v :=
        (h.component_or_done hw heq (.inl hx) hxw).resolve_right fun hd => hd.2 hws
      have hlt := h.low_lt x hxs hng
      exact hxw.trans (ih (s.num w) (by omega) w hwc hws ((h.mem_component hv).1 hwc).2 rfl)
  · rintro ⟨hvx, hxv⟩
    refine (h.component_or_done hw heq (.inl hvc) hvx).resolve_right fun hd => ?_
    -- what is done reaches only what is done
    have hdone : s.Visited v ∧ v ∉ s.stack := by
      clear hvx
      induction hxv using Relation.ReflTransGen.head_induction_on with
      | refl => exact hd
      | head hxy _ ih => exact ih (h.done_closed _ hd.1 hd.2 _ hxy)
    exact hdone.2 hv

theorem close (h : Inv edges s) (hw : s.work = (v, []) :: work) (heq : s.low v = s.num v) :
    Inv edges (s.leave.close v) := by
  have hgray : s.gray = v :: s.leave.gray := by simp [State.gray, State.leave, hw]
  have hvgray : v ∈ s.gray := by simp [hgray]
  have hv := h.gray_stack v hvgray
  have hsub : ∀ x ∈ s.leave.gray, x ∈ s.gray := fun x hx => hgray ▸ List.mem_cons_of_mem _ hx
  have hsorted := h.gray_sorted
  rw [hgray, List.pairwise_cons] at hsorted
  have hmem : ∀ x, x ∈ s.below v ↔ x ∈ s.stack ∧ s.num x < s.num v := fun x => h.mem_below hv
  have htaken : ∀ x w, (s.leave.close v).Taken edges x w ↔ s.Taken edges x w := fun x w =>
    taken_tail hw (by simp [State.leave, State.close, hw])
  exact
    { index_lt := h.index_lt
      stack_visited := fun x hx => h.stack_visited x ((hmem x).1 hx).1
      stack_sorted := by
        obtain ⟨above, -, hs⟩ := stack_split hv
        have hsorted := h.stack_sorted
        rw [hs, List.pairwise_append, List.pairwise_cons] at hsorted
        exact hsorted.2.1.2
      gray_sorted := hsorted.2
      gray_stack := fun x hx => (hmem x).2 ⟨h.gray_stack x (hsub x hx), hsorted.1 x hx⟩
      rest_edges := fun frame hf => h.rest_edges frame (List.mem_of_mem_tail hf)
      done_closed := fun x hx hns w hxw => by
        by_cases hxs : x ∈ s.stack
        · have hxc : x ∈ s.component v := (h.mem_component hv).2
            ⟨hxs, not_lt.1 fun hlt => hns ((hmem x).2 ⟨hxs, hlt⟩)⟩
          obtain ⟨hwv, hwc⟩ := h.component_closed hw heq hxc hxw
          refine ⟨hwv, fun hwb => ?_⟩
          obtain ⟨hws, hlt⟩ := (hmem w).1 hwb
          have := h.component_le hv (hwc hws)
          omega
        · obtain ⟨hwv, hws⟩ := h.done_closed x hx hxs w hxw
          exact ⟨hwv, fun hwb => hws ((hmem w).1 hwb).1⟩
      taken_visited := fun x hx w hxw =>
        h.taken_visited x ((hmem x).1 hx).1 w ((htaken x w).1 hxw)
      low_le := fun x hx => h.low_le x ((hmem x).1 hx).1
      low_lt := fun x hx hg => by
        obtain ⟨hxs, hlt⟩ := (hmem x).1 hx
        refine h.low_lt x hxs ?_
        rw [hgray, List.mem_cons, not_or]
        exact ⟨fun hxv => by simp [hxv] at hlt, hg⟩
      low_reach := fun x hx => by
        obtain ⟨hxs, hlt⟩ := (hmem x).1 hx
        obtain ⟨w, hws, hwn, hxw⟩ := h.low_reach x hxs
        have := h.low_le x hxs
        exact ⟨w, (hmem w).2 ⟨hws, by omega⟩, hwn, hxw⟩
      low_taken := fun x hx w hwb hxw => by
        obtain ⟨hws, hlt⟩ := (hmem w).1 hwb
        obtain ⟨q, hq, hqw, hqp⟩ :=
          h.low_taken x ((hmem x).1 hx).1 w hws ((htaken x w).1 hxw)
        rw [hgray, List.mem_cons] at hq
        rcases hq with rfl | hq
        · exact absurd (heq ▸ hqw) (by omega)
        · exact ⟨q, hq, hqw, fun y hy => hqp y (hsub y hy)⟩
      gray_reach := fun p hp x hx => h.gray_reach p (hsub p hp) x ((hmem x).1 hx).1
      gray_below := fun x hx => by
        obtain ⟨hxs, hlt⟩ := (hmem x).1 hx
        obtain ⟨p, hp, hpx⟩ := h.gray_below x hxs
        rw [hgray, List.mem_cons] at hp
        rcases hp with rfl | hp
        · exact absurd hpx (by omega)
        · exact ⟨p, hp, hpx⟩ }

end Close

end Inv

end Steps

end Wazir.Scc
