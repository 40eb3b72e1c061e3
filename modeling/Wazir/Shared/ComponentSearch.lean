import Mathlib.Algebra.BigOperators.Group.List.Lemmas
import Wazir.Shared.StrongComponents

/-! The search as a whole: from every root in turn, one step after the other. The lists it closes are
the strongly connected components, each of them once. -/

namespace Wazir.Scc

section Step

variable {V : Type} [DecidableEq V] {edges : V → List V} {s : State V}

omit [DecidableEq V] in
/-- A node that is left to the stack has one under way below it. -/
theorem Inv.parent (h : Inv edges s) {v : V} {r : List V} (hw : s.work = [(v, r)])
    (hv : v ∈ s.stack) : s.low v = s.num v := by
  obtain ⟨w, hws, hwn, -⟩ := h.low_reach v hv
  obtain ⟨p, hp, hpw⟩ := h.gray_below w hws
  obtain rfl : p = v := by simpa [State.gray, hw] using hp
  have := h.low_le p hv
  omega

/-- What the node on top passes on to the one below it. -/
theorem Inv.passLow (h : Inv edges s) {v : V} {r : List V} {work : List (V × List V)}
    (hw : s.work = (v, r) :: work) :
    Inv edges (s.passLow v) ∧ (s.passLow v).low v = s.low v ∧
      ∀ p r' below, work = (p, r') :: below → (s.passLow v).low p ≤ s.low v := by
  have hsorted := h.gray_sorted
  have hvs : v ∈ s.stack := h.gray_stack v (by simp [State.gray, hw])
  cases work with
  | nil => exact ⟨by simpa [State.passLow, hw] using h, by simp [State.passLow, hw], by simp⟩
  | cons frame below =>
    obtain ⟨p, r'⟩ := frame
    simp only [State.gray, hw, List.map_cons, List.pairwise_cons, List.mem_cons] at hsorted
    have hlt : s.num p < s.num v := hsorted.1 p (.inl rfl)
    have hne : v ≠ p := fun he => by simp [he] at hlt
    have hpass : s.passLow v = s.lower p (s.low v) := by simp [State.passLow, hw]
    obtain ⟨w, hws, hwn, hvw⟩ := h.low_reach v hvs
    have hpv : Reach edges p v := h.gray_reach p (by simp [State.gray, hw]) v hvs hlt.le
    rw [hpass]
    refine ⟨hwn ▸ h.lower hws (hpv.trans hvw), by simp [State.lower, hne], ?_⟩
    rintro p' r'' below' ⟨⟩
    simp [State.lower]

theorem passLow_same (s : State V) (v : V) :
    (s.passLow v).index = s.index ∧ (s.passLow v).work = s.work ∧ (s.passLow v).stack = s.stack ∧
      (s.passLow v).closed = s.closed := by
  unfold State.passLow
  split <;> simp [State.lower]

/-- A component is closed, or the node stays on the stack. -/
theorem finish_cases (h : Inv edges s) {v : V} {work : List (V × List V)}
    (hw : s.work = (v, []) :: work) :
    Inv edges (s.passLow v) ∧
      ((s.passLow v).low v = (s.passLow v).num v ∧
          s.finish v = (s.passLow v).leave.close v ∨
        Inv edges (s.finish v) ∧ s.finish v = (s.passLow v).leave) := by
  obtain ⟨hpass, hlow, hparent⟩ := h.passLow hw
  obtain ⟨hindex, hwork, hstack, -⟩ := passLow_same s v
  have hvs : v ∈ s.stack := h.gray_stack v (by simp [State.gray, hw])
  obtain ⟨k, hk⟩ := Option.isSome_iff_exists.1 (h.stack_visited v hvs)
  have hnum : (s.passLow v).num v = k := by simp [State.num, hindex, hk]
  refine ⟨hpass, ?_⟩
  by_cases heq : k = (s.passLow v).low v
  · refine .inl ⟨heq ▸ hnum.symm ▸ rfl, ?_⟩
    simp only [State.finish]
    rw [if_pos (by simpa [State.leave, hindex, hk] using heq)]
  · have hfinish : s.finish v = (s.passLow v).leave := by
      simp only [State.finish]
      rw [if_neg (by simpa [State.leave, hindex, hk] using heq)]
    refine .inr ⟨hfinish ▸ ?_, hfinish⟩
    have hlt : (s.passLow v).low v < (s.passLow v).num v :=
      lt_of_le_of_ne (hpass.low_le v (hstack ▸ hvs)) fun he => heq (hnum ▸ he.symm)
    cases work with
    | nil =>
      have := hpass.parent (hwork.trans hw) (hstack ▸ hvs)
      omega
    | cons frame below =>
      obtain ⟨p, r'⟩ := frame
      exact hpass.leave (hwork.trans hw) hlt (hlow ▸ hparent p r' below rfl)

/-- The edge to a node that is not new. -/
theorem Inv.known (h : Inv edges s) {v next : V} {rest : List V} {work : List (V × List V)} {k : ℕ}
    (hw : s.work = (v, next :: rest) :: work) (hk : s.index next = some k) :
    Inv edges (if next ∈ s.stack then (s.onTop (v, rest)).lower v k else s.onTop (v, rest)) := by
  have hv : v ∈ s.stack := h.gray_stack v (by simp [State.gray, hw])
  have hvisited : s.Visited next := by simp [State.Visited, hk]
  split_ifs with hs
  · have hedge : Reach edges v next :=
      .single (h.rest_edges (v, next :: rest) (by simp [hw]) next List.mem_cons_self)
    have hnum : s.num next = k := by simp [State.num, hk]
    have hlowered := hnum ▸ h.lower hs hedge
    have htaken := hlowered.take [] (hw.trans rfl) hvisited fun _ => by
      simp [State.lower, State.num, hk]
    simpa [State.onTop, State.lower, hw] using htaken
  · have htaken := h.take [] (hw.trans rfl) hvisited fun hn => absurd hn hs
    simpa [State.onTop, hw] using htaken

/-- The edge to a new node. -/
theorem Inv.new (h : Inv edges s) {v next : V} {rest : List V} {work : List (V × List V)}
    (hw : s.work = (v, next :: rest) :: work) (hk : s.index next = none) :
    Inv edges ((s.onTop (v, rest)).enter edges next) := by
  have hvgray : v ∈ s.gray := by simp [State.gray, hw]
  have hv : v ∈ s.stack := h.gray_stack v hvgray
  have hne : v ≠ next := fun he => by
    have := h.stack_visited v hv
    simp [State.Visited, he, hk] at this
  have hedge : Edge edges v next :=
    h.rest_edges (v, next :: rest) (by simp [hw]) next List.mem_cons_self
  have hentered := h.enter hk fun p hp =>
    (h.gray_reach p hp v hv (h.gray_le_top hw hp)).tail hedge
  have hw' : (s.enter edges next).work = [(next, edges next)] ++ (v, next :: rest) :: work := by
    simp [State.enter, hw]
  have htaken := hentered.take _ hw' (by simp [State.Visited, State.enter]) fun _ => by
    simp only [State.enter, State.num, Function.update_self, Function.update_of_ne hne,
      Option.getD_some]
    exact (h.low_le v hv).trans (h.num_lt hv).le
  simpa [State.onTop, State.enter, hw] using htaken

/-- What was closed: whole components, each once, and nothing that is still on the stack. -/
structure Closed (edges : V → List V) (s : State V) : Prop where
  scc : ∀ c ∈ s.closed, c.Nodup ∧ ∃ r ∈ c, ∀ x, x ∈ c ↔ Reach edges r x ∧ Reach edges x r
  done : ∀ x, (∃ c ∈ s.closed, x ∈ c) ↔ s.Visited x ∧ x ∉ s.stack
  apart : s.closed.Pairwise List.Disjoint

omit [DecidableEq V] in
theorem Closed.same (h : Closed edges s) {t : State V} (hc : t.closed = s.closed)
    (hd : ∀ x, (t.Visited x ∧ x ∉ t.stack) ↔ s.Visited x ∧ x ∉ s.stack) : Closed edges t where
  scc := hc ▸ h.scc
  done x := by rw [hc, h.done, hd]
  apart := hc ▸ h.apart

theorem Closed.close (hc : Closed edges s) (h : Inv edges s) {v : V} {work : List (V × List V)}
    (hw : s.work = (v, []) :: work) (heq : s.low v = s.num v) :
    Closed edges (s.leave.close v) := by
  have hv : v ∈ s.stack := h.gray_stack v (by simp [State.gray, hw])
  have hvc : v ∈ s.component v := (h.mem_component hv).2 ⟨hv, le_rfl⟩
  refine ⟨fun c hmem => ?_, fun x => ?_, ?_⟩
  · rcases List.mem_append.1 hmem with hmem | hmem
    · exact hc.scc c hmem
    · obtain rfl : c = s.component v := List.mem_singleton.1 hmem
      refine ⟨?_, v, hvc, h.component_scc hw heq⟩
      obtain ⟨above, hcomp, hs⟩ := Inv.stack_split hv
      have hnd : s.stack.Nodup := h.stack_sorted.imp fun hlt he => by simp [he] at hlt
      rw [hs, List.append_cons, List.nodup_append] at hnd
      exact hcomp ▸ hnd.1
  · have hclosed : (s.leave.close v).closed = s.closed ++ [s.component v] := rfl
    have hstack : x ∈ (s.leave.close v).stack ↔ x ∈ s.stack ∧ s.num x < s.num v := h.mem_below hv
    have hvisited : (s.leave.close v).Visited x ↔ s.Visited x := .rfl
    have hcomp := h.mem_component (x := x) hv
    have hdone := hc.done x
    have hon := h.stack_visited x
    simp only [hclosed, List.mem_append, List.mem_singleton, or_and_right, exists_or,
      exists_eq_left, hdone, hcomp, hstack, hvisited]
    by_cases hxs : x ∈ s.stack
    · simp [hxs, hon hxs]
    · simp [hxs]
  · refine List.pairwise_append.2 ⟨hc.apart, List.pairwise_singleton _ _, ?_⟩
    rintro c hmem c' hc' x hxc hxc'
    obtain rfl : c' = s.component v := List.mem_singleton.1 hc'
    exact ((hc.done x).1 ⟨c, hmem, hxc⟩).2 ((h.mem_component hv).1 hxc').1

/-! How many steps are left. -/

/-- The edges and the leaving of the nodes under way. -/
def State.pending (s : State V) : ℕ := (s.work.map fun frame => frame.2.length + 1).sum

/-- The edges and the leaving of the nodes that are still to be entered. -/
def State.unvisited (edges : V → List V) (ids : List V) (s : State V) : ℕ :=
  ((ids.filter fun v => (s.index v).isNone).map fun v => (edges v).length + 1).sum

theorem unvisited_enter {ids : List V} (hids : ids.Nodup) {v : V} (hv : v ∈ ids)
    (hnew : s.index v = none) (t : State V)
    (ht : t.index = Function.update s.index v (some s.counter)) :
    (edges v).length + 1 + t.unvisited edges ids = s.unvisited edges ids := by
  have hmem : v ∈ ids.filter fun w => (s.index w).isNone := by simp [hv, hnew]
  have herase : (ids.filter fun w => (t.index w).isNone) =
      (ids.filter fun w => (s.index w).isNone).erase v := by
    rw [(hids.filter _).erase_eq_filter, List.filter_filter]
    refine List.filter_congr fun w _ => ?_
    by_cases hw : w = v
    · subst hw
      simp [ht]
    · simp [ht, hw]
  rw [State.unvisited, herase, State.unvisited,
    List.sum_map_erase (fun w => (edges w).length + 1) hmem]

/-- A state of the search over `ids`. -/
structure Sound (edges : V → List V) (ids : List V) (s : State V) : Prop where
  inv : Inv edges s
  closed : Closed edges s
  visited_ids : ∀ v, s.Visited v → v ∈ ids

def State.left (edges : V → List V) (ids : List V) (s : State V) : ℕ :=
  s.pending + s.unvisited edges ids

variable {ids : List V}

theorem visited_enter (s : State V) (v : V) (x : V) :
    (s.enter edges v).Visited x ↔ x = v ∨ s.Visited x := by
  by_cases hx : x = v
  · simp [State.Visited, State.enter, hx]
  · simp [State.Visited, State.enter, hx]

theorem Closed.enter (hc : Closed edges s) {v : V} (hnew : s.index v = none) {t : State V}
    (ht : t.closed = s.closed) (hi : t.index = (s.enter edges v).index)
    (hs : t.stack = v :: s.stack) : Closed edges t := by
  refine hc.same ht fun x => ?_
  have hvisited : t.Visited x ↔ x = v ∨ s.Visited x := by
    rw [← @visited_enter _ _ edges s v x, State.Visited, State.Visited, hi]
  rw [hvisited, hs, List.mem_cons, not_or]
  by_cases hx : x = v
  · subst hx
    simp [State.Visited, hnew]
  · simp [hx]

theorem finish_left {v : V} {work : List (V × List V)} (hw : s.work = (v, []) :: work) :
    (s.finish v).left edges ids + 1 = s.left edges ids ∧ (s.finish v).index = s.index := by
  obtain ⟨hindex, hwork, -, -⟩ := passLow_same s v
  have hfinish : (s.finish v).work = work ∧ (s.finish v).index = s.index := by
    simp only [State.finish]
    split_ifs <;> simp [State.leave, State.close, hwork, hindex, hw]
  refine ⟨?_, hfinish.2⟩
  simp only [State.left, State.pending, State.unvisited, hfinish.1, hfinish.2, hw, List.map_cons,
    List.sum_cons, List.length_nil]
  omega

/-- One step keeps the search sound, forgets no node and takes one edge or leaves one node. -/
theorem Sound.step (h : Sound edges ids s) (hids : ids.Nodup)
    (hedges : ∀ v ∈ ids, ∀ w ∈ edges v, w ∈ ids) :
    Sound edges ids (s.step edges) ∧ (∀ v, s.Visited v → (s.step edges).Visited v) ∧
      (s.work ≠ [] → (s.step edges).left edges ids + 1 = s.left edges ids) := by
  obtain ⟨hinv, hclosed, hvids⟩ := h
  rcases hw : s.work with - | ⟨⟨v, rest⟩, work⟩
  · have hstep : s.step edges = s := by simp [State.step, hw]
    rw [hstep]
    exact ⟨⟨hinv, hclosed, hvids⟩, fun v hv => hv, fun hne => absurd rfl hne⟩
  have hv : v ∈ s.stack := hinv.gray_stack v (by simp [State.gray, hw])
  cases rest with
  | nil =>
    have hstep : s.step edges = s.finish v := by simp [State.step, hw]
    obtain ⟨hleft, hindex⟩ := @finish_left _ _ edges s ids _ _ hw
    obtain ⟨hpindex, hpwork, hpstack, hpclosed⟩ := passLow_same s v
    have hvisited : ∀ x, (s.finish v).Visited x ↔ s.Visited x := fun x => by
      rw [State.Visited, State.Visited, hindex]
    have hpass : Closed edges (s.passLow v) := hclosed.same hpclosed fun x => by
      rw [State.Visited, State.Visited, hpindex, hpstack]
    rw [hstep]
    refine ⟨⟨?_, ?_, fun x hx => hvids x ((hvisited x).1 hx)⟩, fun x hx => (hvisited x).2 hx,
      fun _ => hleft⟩
    · obtain ⟨hpinv, ⟨heq, hfinish⟩ | ⟨hfinish, -⟩⟩ := finish_cases hinv hw
      · exact hfinish ▸ hpinv.close (hpwork.trans hw) heq
      · exact hfinish
    · obtain ⟨hpinv, ⟨heq, hfinish⟩ | ⟨-, hfinish⟩⟩ := finish_cases hinv hw
      · exact hfinish ▸ hpass.close hpinv (hpwork.trans hw) heq
      · exact hfinish ▸ hpass.same rfl fun x => .rfl
  | cons next rest =>
    have hnext : next ∈ ids := hedges v (hvids v (hinv.stack_visited v hv)) next
      (hinv.rest_edges (v, next :: rest) (by simp [hw]) next List.mem_cons_self)
    rcases hk : s.index next with - | k
    · have hstep : s.step edges = (s.onTop (v, rest)).enter edges next := by
        simp [State.step, hw, hk]
      have hvisited : ∀ x, ((s.onTop (v, rest)).enter edges next).Visited x ↔
          x = next ∨ s.Visited x := visited_enter (s.onTop (v, rest)) next
      rw [hstep]
      refine ⟨⟨hinv.new hw hk, hclosed.enter hk rfl rfl rfl, fun x hx => ?_⟩,
        fun x hx => (hvisited x).2 (.inr hx), fun _ => ?_⟩
      · rcases (hvisited x).1 hx with rfl | hx
        · exact hnext
        · exact hvids x hx
      · have hun := @unvisited_enter _ _ edges _ _ hids _ hnext hk
          ((s.onTop (v, rest)).enter edges next) rfl
        have hpending : ((s.onTop (v, rest)).enter edges next).pending + 1 =
            (edges next).length + 1 + s.pending := by
          simp only [State.pending, State.enter, State.onTop, hw, List.tail_cons, List.map_cons,
            List.sum_cons, List.length_cons]
          omega
        simp only [State.left]
        omega
    · have hstep : s.step edges =
          if next ∈ s.stack then (s.onTop (v, rest)).lower v k else s.onTop (v, rest) := by
        simp [State.step, hw, hk, State.onTop]
      have hknown := hinv.known hw hk
      rw [← hstep] at hknown
      have hsame : (s.step edges).index = s.index ∧ (s.step edges).stack = s.stack ∧
          (s.step edges).closed = s.closed ∧ (s.step edges).work = (v, rest) :: work := by
        rw [hstep]
        split_ifs <;> simp [State.onTop, State.lower, hw]
      obtain ⟨hindex, hstack, hcl, hwork⟩ := hsame
      have hvisited : ∀ x, (s.step edges).Visited x ↔ s.Visited x := fun x => by
        rw [State.Visited, State.Visited, hindex]
      refine ⟨⟨hknown, hclosed.same hcl fun x => by rw [hvisited, hstack],
        fun x hx => hvids x ((hvisited x).1 hx)⟩, fun x hx => (hvisited x).2 hx, fun _ => ?_⟩
      simp only [State.left, State.pending, State.unvisited, hindex, hwork, hw, List.map_cons,
        List.sum_cons, List.length_cons]
      omega

end Step

section Search

variable {V : Type} [DecidableEq V] (edges : V → List V)

def State.run : ℕ → State V → State V
  | 0, s => s
  | fuel + 1, s => (s.step edges).run fuel

/-- The search from one root. -/
def State.visit (fuel : ℕ) (s : State V) (root : V) : State V :=
  if (s.index root).isSome then s else (s.enter edges root).run edges fuel

variable {edges} {ids : List V} {s : State V}

theorem run_done (hw : s.work = []) (fuel : ℕ) : s.run edges fuel = s := by
  induction fuel with
  | zero => rfl
  | succ fuel ih =>
    have hstep : s.step edges = s := by simp [State.step, hw]
    rw [State.run, hstep, ih]

theorem Sound.run (hids : ids.Nodup) (hedges : ∀ v ∈ ids, ∀ w ∈ edges v, w ∈ ids) (fuel : ℕ)
    (h : Sound edges ids s) :
    Sound edges ids (s.run edges fuel) ∧ (∀ v, s.Visited v → (s.run edges fuel).Visited v) ∧
      (s.run edges fuel).left edges ids ≤ s.left edges ids ∧
      (s.left edges ids ≤ fuel → (s.run edges fuel).work = []) := by
  induction fuel generalizing s with
  | zero =>
    refine ⟨h, fun v hv => hv, le_rfl, fun hle => ?_⟩
    rcases hw : s.work with - | ⟨frame, work⟩
    · exact hw
    · simp [State.left, State.pending, hw] at hle
  | succ fuel ih =>
    by_cases hw : s.work = []
    · rw [run_done hw]
      exact ⟨h, fun v hv => hv, le_rfl, fun _ => hw⟩
    · obtain ⟨hsound, hvisited, hleft⟩ := h.step hids hedges
      obtain ⟨hrun, hrunv, hrunl, hwork⟩ := ih hsound
      have hleft := hleft hw
      exact ⟨hrun, fun v hv => hrunv v (hvisited v hv), hrunl.trans (by omega),
        fun hle => hwork (by omega)⟩

theorem Sound.enter (h : Sound edges ids s) (hw : s.work = []) {root : V}
    (hroot : s.index root = none) (hmem : root ∈ ids) (hids : ids.Nodup) :
    Sound edges ids (s.enter edges root) ∧
      (s.enter edges root).left edges ids = s.left edges ids := by
  have hgray : s.gray = [] := by simp [State.gray, hw]
  refine ⟨⟨h.inv.enter hroot (by simp [hgray]), h.closed.enter hroot rfl rfl rfl, fun x hx => ?_⟩,
    ?_⟩
  · rcases (visited_enter s root x).1 hx with rfl | hx
    · exact hmem
    · exact h.visited_ids x hx
  · have hun := @unvisited_enter _ _ edges _ _ hids _ hmem hroot (s.enter edges root) rfl
    simp only [State.left, State.pending, State.enter, hw, List.map_nil, List.map_cons,
      List.sum_nil, List.sum_cons] at hun ⊢
    omega

/-- The searches from several roots: each of them ends, and leaves its root visited. -/
theorem Sound.visit (hids : ids.Nodup) (hedges : ∀ v ∈ ids, ∀ w ∈ edges v, w ∈ ids) (fuel : ℕ)
    (roots : List V) (hroots : ∀ r ∈ roots, r ∈ ids) (h : Sound edges ids s) (hw : s.work = [])
    (hle : s.left edges ids ≤ fuel) :
    Sound edges ids (roots.foldl (State.visit edges fuel) s) ∧
      (roots.foldl (State.visit edges fuel) s).work = [] ∧
      (roots.foldl (State.visit edges fuel) s).left edges ids ≤ fuel ∧
      ∀ v, s.Visited v ∨ v ∈ roots → (roots.foldl (State.visit edges fuel) s).Visited v := by
  induction roots generalizing s with
  | nil => exact ⟨h, hw, hle, fun v hv => by simpa using hv⟩
  | cons root roots ih =>
    -- the state after the first root
    have hfirst : ∃ t, s.visit edges fuel root = t ∧ Sound edges ids t ∧ t.work = [] ∧
        t.left edges ids ≤ fuel ∧ ∀ v, s.Visited v ∨ v = root → t.Visited v := by
      refine ⟨_, rfl, ?_⟩
      rcases hi : s.index root with - | k
      · obtain ⟨hentered, hleft⟩ := h.enter hw hi (hroots root List.mem_cons_self) hids
        obtain ⟨hrun, hrunv, hrunl, hwork⟩ := hentered.run hids hedges fuel
        rw [State.visit, if_neg (by simp [hi])]
        exact ⟨hrun, hwork (by omega), by omega, fun v hv =>
          hrunv v ((visited_enter s root v).2 hv.symm)⟩
      · rw [State.visit, if_pos (by simp [hi])]
        refine ⟨h, hw, hle, fun v hv => ?_⟩
        rcases hv with hv | rfl
        · exact hv
        · simp [State.Visited, hi]
    obtain ⟨t, ht, hsound, hwork, hleft, hvisited⟩ := hfirst
    obtain ⟨hs, hwo, hl, hv⟩ := ih (fun r hr => hroots r (List.mem_cons_of_mem _ hr)) hsound hwork hleft
    rw [List.foldl_cons, ht]
    refine ⟨hs, hwo, hl, fun v hv' => hv v ?_⟩
    rw [List.mem_cons, ← or_assoc] at hv'
    exact hv'.imp_left (hvisited v)

/-- A list of the strongly connected components of the nodes `ids`. -/
structure Components (edges : V → List V) (ids : List V) (closed : List (List V)) : Prop where
  scc : ∀ c ∈ closed, c.Nodup ∧ ∃ r ∈ c, ∀ x, x ∈ c ↔ Reach edges r x ∧ Reach edges x r
  mem_iff : ∀ x, (∃ c ∈ closed, x ∈ c) ↔ x ∈ ids
  apart : closed.Pairwise List.Disjoint

omit [DecidableEq V] in
theorem sound_start (edges : V → List V) (ids : List V) : Sound edges ids State.start :=
  ⟨inv_start edges, ⟨by simp [State.start], by simp [State.start, State.Visited], .nil⟩,
    by simp [State.start, State.Visited]⟩

omit [DecidableEq V] in
theorem start_left (edges : V → List V) (ids : List V) :
    State.start.left edges ids ≤ ids.length + (ids.map fun v => (edges v).length).sum := by
  have hsum : (ids.map fun v => (edges v).length + 1).sum =
      ids.length + (ids.map fun v => (edges v).length).sum := by
    rw [List.sum_map_add, List.map_const', List.sum_replicate, smul_eq_mul, mul_one, add_comm]
  simp [State.left, State.pending, State.unvisited, State.start, hsum]

theorem components_of_visit (hids : ids.Nodup) (hedges : ∀ v ∈ ids, ∀ w ∈ edges v, w ∈ ids)
    {fuel : ℕ} (hfuel : ids.length + (ids.map fun v => (edges v).length).sum ≤ fuel)
    {roots : List V} (hroots : ∀ v, v ∈ roots ↔ v ∈ ids) :
    Components edges ids (roots.foldl (State.visit edges fuel) State.start).closed := by
  have hstart := sound_start edges ids
  have hleft := (start_left edges ids).trans hfuel
  obtain ⟨hs, hw, -, hv⟩ :=
    hstart.visit hids hedges fuel roots (fun r hr => (hroots r).1 hr) rfl hleft
  -- nothing is under way, so nothing is left on the stack
  have hstack : ∀ x, x ∉ (roots.foldl (State.visit edges fuel) State.start).stack := fun x hx => by
    obtain ⟨p, hp, -⟩ := hs.inv.gray_below x hx
    simp [State.gray, hw] at hp
  refine ⟨hs.closed.scc, fun x => ?_, hs.closed.apart⟩
  rw [hs.closed.done]
  exact ⟨fun hx => hs.visited_ids x hx.1, fun hx => ⟨hv x (.inr ((hroots x).2 hx)), hstack x⟩⟩

end Search

end Wazir.Scc
