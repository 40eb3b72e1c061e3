import Mathlib.Data.List.Chain
import Wazir.Goals.CycleComponents

/-! The breadth-first search of `findCycles`: in a component with more than one member it finds a way
from the first member back to it. -/

namespace Wazir.Goals.FindCycles

open Scc (Edge Reach)

/-- A walk along edges inside `members` that ends where it started. -/
def ClosedWalk (edge : TargetId → TargetId → Prop) (members : Set TargetId)
    (path : List TargetId) : Prop :=
  ∃ start between, path = start :: (between ++ [start]) ∧ path.IsChain edge ∧
    ∀ v ∈ path, v ∈ members

/-- The way that the predecessors tell. -/
inductive Way (prev : Table TargetId TargetId) (start : TargetId) :
    TargetId → List TargetId → Prop
  | start : Way prev start start []
  | next {v p : TargetId} {way : List TargetId} : v ≠ start → prev.lookup v = some p →
      Way prev start p way → Way prev start v (way ++ [v])

variable {way : List TargetId} {v : TargetId}

section Ways

variable {prev : Table TargetId TargetId} {start : TargetId}

theorem Way.wayTo_eq (h : Way prev start v way) {fuel : ℕ} (hf : way.length < fuel) :
    wayTo prev start fuel v = way := by
  induction h generalizing fuel with
  | start =>
    obtain ⟨fuel, rfl⟩ := Nat.exists_eq_add_one_of_ne_zero (by omega : fuel ≠ 0)
    simp [wayTo]
  | next hne hp _ ih =>
    obtain ⟨fuel, rfl⟩ := Nat.exists_eq_add_one_of_ne_zero (by omega : fuel ≠ 0)
    rw [List.length_append, List.length_singleton] at hf
    have hway : wayTo prev start fuel _ = _ := ih (by omega)
    simp [wayTo, hne, hp, hway]

theorem Way.insert {v d p : TargetId} (h : Way prev start v way) (hd : prev.lookup d = none) :
    Way (prev.insert d p) start v way := by
  induction h with
  | start => exact .start
  | @next v q way hne hq _ ih =>
    have hvd : v ≠ d := by
      rintro rfl
      simp [hd] at hq
    exact .next hne (by rw [AList.lookup_insert_ne hvd, hq]) ih

theorem Way.getLast (h : Way prev start v way) :
    (start :: way).getLast? = some v := by
  cases h with
  | start => rfl
  | next hne hp h => rw [← List.cons_append, List.getLast?_append]; rfl

end Ways

section BreadthFirst

variable (edges : TargetId → List TargetId) (members : List TargetId) (start : TargetId)

structure WalkInv (w : Walk) : Prop where
  start_visited : start ∈ w.visited
  visited_nodup : w.visited.Nodup
  visited_members : ∀ v ∈ w.visited, v ∈ members
  queue_visited : ∀ v ∈ w.queue, v ∈ w.visited
  prev_visited : ∀ v, v ∉ w.visited → w.prev.lookup v = none
  prev_edge : ∀ v p, w.prev.lookup v = some p → Edge edges p v
  ways : ∀ v ∈ w.visited, ∃ way, Way w.prev start v way ∧ way.length < w.visited.length ∧
    ∀ x ∈ way, x ∈ members

variable {edges members start}

theorem chain_of_way {prev : Table TargetId TargetId}
    (hprev : ∀ v p, prev.lookup v = some p → Edge edges p v) (h : Way prev start v way) :
    (start :: way).IsChain (Edge edges) := by
  induction h with
  | start => exact .singleton start
  | @next v p way _ hp hway ih =>
    rw [← List.cons_append, List.isChain_append]
    refine ⟨ih, .singleton v, fun x hx y hy => ?_⟩
    rw [hway.getLast, Option.mem_some_iff] at hx
    rw [List.head?_cons, Option.mem_some_iff] at hy
    exact hx ▸ hy ▸ hprev v p hp

/-- What the edges `ds` of one node leave: the walk goes on, with their members visited. -/
structure Explored (members : List TargetId) (start : TargetId) (ds : List TargetId)
    (w w' : Walk) : Prop where
  visited : ∀ v ∈ w.visited, v ∈ w'.visited
  queue : ∀ v ∈ w.queue, v ∈ w'.queue
  fresh : ∀ v ∈ w'.visited, v ∈ w.visited ∨ v ∈ w'.queue
  count : w'.queue.length + w.visited.length = w.queue.length + w'.visited.length
  edges : ∀ d ∈ ds, d ∈ members → d ∈ w'.visited ∧ d ≠ start

theorem WalkInv.extend {w : Walk} (h : WalkInv edges members start w) {current d : TargetId}
    (hc : current ∈ w.visited) (hd : Edge edges current d) (hdm : d ∈ members) (hds : d ≠ start)
    (hdv : d ∉ w.visited) :
    WalkInv edges members start ⟨w.queue ++ [d], w.prev.insert d current, d :: w.visited⟩ where
  start_visited := List.mem_cons_of_mem _ h.start_visited
  visited_nodup := List.nodup_cons.2 ⟨hdv, h.visited_nodup⟩
  visited_members := List.forall_mem_cons.2 ⟨hdm, h.visited_members⟩
  queue_visited v hv := by
    rcases List.mem_append.1 hv with hv | hv
    · exact List.mem_cons_of_mem _ (h.queue_visited v hv)
    · exact List.mem_cons.2 (.inl (List.mem_singleton.1 hv))
  prev_visited v hv := by
    rw [List.mem_cons, not_or] at hv
    rw [AList.lookup_insert_ne hv.1, h.prev_visited v hv.2]
  prev_edge v p hp := by
    by_cases hv : v = d
    · subst hv
      rw [AList.lookup_insert, Option.some.injEq] at hp
      exact hp ▸ hd
    · rw [AList.lookup_insert_ne hv] at hp
      exact h.prev_edge v p hp
  ways v hv := by
    have hnone := h.prev_visited d hdv
    rcases List.mem_cons.1 hv with rfl | hv
    · obtain ⟨way, hway, hlen, hmem⟩ := h.ways current hc
      refine ⟨way ++ [v], .next hds (AList.lookup_insert _) (hway.insert hnone), ?_, ?_⟩
      · simpa using hlen
      · intro x hx
        rcases List.mem_append.1 hx with hx | hx
        · exact hmem x hx
        · exact List.mem_singleton.1 hx ▸ hdm
    · obtain ⟨way, hway, hlen, hmem⟩ := h.ways v hv
      exact ⟨way, hway.insert hnone, hlen.trans (Nat.lt_succ_self _), hmem⟩

theorem Explored.cons {w w' : Walk} {d : TargetId} {ds : List TargetId}
    (h : Explored members start ds w w') (hd : d ∈ members → d ∈ w'.visited ∧ d ≠ start) :
    Explored members start (d :: ds) w w' :=
  { h with edges := List.forall_mem_cons.2 ⟨hd, h.edges⟩ }

theorem explore_spec {current : TargetId} {ds : List TargetId}
    (hds : ∀ d ∈ ds, Edge edges current d) {w : Walk} (h : WalkInv edges members start w) (hc : current ∈ w.visited) :
    (∃ path, explore members start current ds w = .inl path ∧
        ClosedWalk (Edge edges) {x | x ∈ members} path) ∨
      ∃ w', explore members start current ds w = .inr w' ∧ WalkInv edges members start w' ∧
        Explored members start ds w w' := by
  induction ds generalizing w with
  | nil =>
    exact .inr ⟨w, rfl, h, fun v hv => hv, fun v hv => hv, fun v hv => .inl hv, rfl,
      fun d hd => absurd hd List.not_mem_nil⟩
  | cons d ds ih =>
    have hd := hds d List.mem_cons_self
    have hds := fun x hx => hds x (List.mem_cons_of_mem d hx)
    simp only [explore]
    by_cases hdm : d ∈ members
    · rw [if_neg (not_not.2 hdm)]
      by_cases hstart : d = start
      · -- back at the start
        rw [if_pos hstart]
        refine .inl ⟨_, rfl, ?_⟩
        obtain ⟨way, hway, hlen, hmem⟩ := h.ways current hc
        have hle : w.visited.length ≤ members.length :=
          (List.subperm_of_subset h.visited_nodup h.visited_members).length_le
        rw [hway.wayTo_eq (by omega)]
        refine ⟨start, way, rfl, ?_, ?_⟩
        · rw [← List.cons_append, List.isChain_append]
          refine ⟨chain_of_way h.prev_edge hway, .singleton start, fun x hx y hy => ?_⟩
          rw [hway.getLast, Option.mem_some_iff] at hx
          rw [List.head?_cons, Option.mem_some_iff] at hy
          exact hx ▸ hy ▸ hstart ▸ hd
        · have hs := h.visited_members start h.start_visited
          intro x hx
          simp only [List.mem_cons, List.mem_append, List.not_mem_nil, or_false] at hx
          rcases hx with rfl | hx | rfl
          · exact hs
          · exact hmem x hx
          · exact hs
      · rw [if_neg hstart]
        by_cases hdv : d ∈ w.visited
        · rw [if_pos hdv]
          refine (ih hds h hc).imp_right fun ⟨w', he, hw', hex⟩ => ⟨w', he, hw', hex.cons fun _ => ?_⟩
          exact ⟨hex.visited d hdv, hstart⟩
        · rw [if_neg hdv]
          have hext := h.extend hc hd hdm hstart hdv
          refine (ih hds hext (List.mem_cons_of_mem _ hc)).imp_right fun ⟨w', he, hw', hex⟩ =>
            ⟨w', he, hw', ?_⟩
          have hd' : d ∈ w'.visited := hex.visited d List.mem_cons_self
          have hq : ∀ v ∈ w.queue ++ [d], v ∈ w'.queue := hex.queue
          refine ⟨fun v hv => hex.visited v (List.mem_cons_of_mem _ hv),
            fun v hv => hq v (List.mem_append_left _ hv), fun v hv => ?_, ?_,
            List.forall_mem_cons.2 ⟨fun _ => ⟨hd', hstart⟩, hex.edges⟩⟩
          · rcases hex.fresh v hv with hv | hv
            · rcases List.mem_cons.1 hv with rfl | hv
              · exact .inr (hq v (by simp))
              · exact .inl hv
            · exact .inr hv
          · have := hex.count
            simp only [List.length_append, List.length_cons, List.length_nil] at this
            omega
    · rw [if_pos hdm]
      exact (ih hds h hc).imp_right fun ⟨w', he, hw', hex⟩ =>
        ⟨w', he, hw', hex.cons fun hm => absurd hm hdm⟩

/-- Every member reachable from the start is visited, once no node is left in the queue. -/
theorem reach_visited {w : Walk} (h : WalkInv edges members start w) (hq : w.queue = [])
    (hexplored : ∀ x ∈ w.visited, x ∉ w.queue →
      ∀ d ∈ edges x, d ∈ members → d ∈ w.visited ∧ d ≠ start)
    (hscc : ∀ x, x ∈ members ↔ Reach edges start x ∧ Reach edges x start) (hr : Reach edges start v)
    (hv : Reach edges v start) : v ∈ w.visited := by
  induction hr with
  | refl => exact h.start_visited
  | @tail x y hx hxy ih =>
    have hxv := ih (.head hxy hv)
    exact (hexplored x hxv (by simp [hq]) y hxy ((hscc y).2 ⟨hx.tail hxy, hv⟩)).1

/-- The walk comes back to the start before the queue is empty. -/
theorem cycleFrom_spec (hscc : ∀ x, x ∈ members ↔ Reach edges start x ∧ Reach edges x start)
    {other : TargetId} (hother : other ∈ members) (hne : other ≠ start) (fuel : ℕ) {w : Walk}
    (h : WalkInv edges members start w)
    (hexplored : ∀ x ∈ w.visited, x ∉ w.queue →
      ∀ d ∈ edges x, d ∈ members → d ∈ w.visited ∧ d ≠ start)
    (hfuel : members.length + w.queue.length < fuel + w.visited.length) :
    ∃ path, cycleFrom edges members start fuel w = some path ∧
      ClosedWalk (Edge edges) {x | x ∈ members} path := by
  have hle : ∀ w', WalkInv edges members start w' → w'.visited.length ≤ members.length :=
    fun w' h => (List.subperm_of_subset h.visited_nodup h.visited_members).length_le
  induction fuel generalizing w with
  | zero =>
    have := hle w h
    omega
  | succ fuel ih =>
    rcases hq : w.queue with - | ⟨current, queue⟩
    · -- all members are visited, and one of them has an edge to the start
      obtain ⟨hso, hos⟩ := (hscc other).1 hother
      rcases Relation.ReflTransGen.cases_tail hos with he | ⟨x, hox, hxs⟩
      · exact absurd he.symm hne
      · have hx := reach_visited h hq hexplored hscc (hso.trans hox) (.single hxs)
        have hstart := h.visited_members start h.start_visited
        exact absurd rfl (hexplored x hx (by simp [hq]) start hxs hstart).2
    · have hc : current ∈ w.visited := h.queue_visited current (by simp [hq])
      have hw : WalkInv edges members start { w with queue := queue } :=
        { h with queue_visited := fun v hv => h.queue_visited v (by simp [hq, hv]) }
      simp only [cycleFrom, hq]
      rcases explore_spec (fun d hd => hd) hw hc with ⟨path, he, hpath⟩ | ⟨w', he, hw', hex⟩
      · exact ⟨path, by rw [he], hpath⟩
      · rw [he]
        refine ih hw' (fun x hx hxq d hd hdm => ?_) ?_
        · rcases hex.fresh x hx with hx | hx
          · by_cases hxc : x = current
            · exact hex.edges d (hxc ▸ hd) hdm
            · have hxq' : x ∉ w.queue := by
                rw [hq, List.mem_cons, not_or]
                exact ⟨hxc, fun hmem => hxq (hex.queue x hmem)⟩
              have hd := hexplored x hx hxq' d hd hdm
              exact ⟨hex.visited d hd.1, hd.2⟩
          · exact absurd hx hxq
        · have hcount := hex.count
          simp only [hq, List.length_cons] at hfuel hcount
          omega

end BreadthFirst

/-- A component with more than one member has a closed walk, which `cycleIn` finds. -/
theorem cycleIn_spec {edges : TargetId → List TargetId} {component : List TargetId}
    (hnodup : component.Nodup) (hlen : 1 < component.length) {root : TargetId}
    (hscc : ∀ x, x ∈ component ↔ Reach edges root x ∧ Reach edges x root) :
    ClosedWalk (Edge edges) {x | x ∈ component} (cycleIn edges component) := by
  have hperm : (sortBy compareStrings component).Perm component := List.perm_insertionSort _ _
  rcases hs : sortBy compareStrings component with - | ⟨start, rest⟩
  · rw [hs] at hperm
    simp [← hperm.length_eq] at hlen
  · have hstart : start ∈ component := hperm.subset (by simp [hs])
    obtain ⟨hrs, hsr⟩ := (hscc start).1 hstart
    have hscc' : ∀ x, x ∈ component ↔ Reach edges start x ∧ Reach edges x start := fun x =>
      (hscc x).trans ⟨fun hx => ⟨hsr.trans hx.1, hx.2.trans hrs⟩,
        fun hx => ⟨hrs.trans hx.1, hx.2.trans hsr⟩⟩
    obtain ⟨other, hother, hne⟩ : ∃ x ∈ component, x ≠ start := by
      cases rest with
      | nil =>
        rw [hs] at hperm
        simp [← hperm.length_eq] at hlen
      | cons other rest =>
        have hnd := (hperm.nodup_iff.2 hnodup)
        rw [hs, List.nodup_cons, List.mem_cons, not_or] at hnd
        exact ⟨other, hperm.subset (by simp [hs]), Ne.symm hnd.1.1⟩
    have hinv : WalkInv edges component start ⟨[start], ∅, [start]⟩ :=
      { start_visited := List.mem_singleton_self _
        visited_nodup := List.nodup_singleton _
        visited_members := by simpa using hstart
        queue_visited := fun v hv => hv
        prev_visited := fun v _ => rfl
        prev_edge := fun v p hp => by simp at hp
        ways := fun v hv => ⟨[], by rw [List.mem_singleton.1 hv]; exact .start, by simp, by simp⟩ }
    obtain ⟨path, hpath, hclosed⟩ := cycleFrom_spec hscc' hother hne (component.length + 1) hinv
      (fun x hx hxq => absurd hx hxq) (by simp)
    simpa [cycleIn, hs, hpath] using hclosed

end Wazir.Goals.FindCycles
