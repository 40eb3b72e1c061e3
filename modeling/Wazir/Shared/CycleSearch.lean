import Mathlib.Data.Finset.Card
import Wazir.Shared.Rewiring
import Wazir.Shared.Values

/-! A depth-first search that fails at the first way back to a node it is below. -/

namespace Wazir.CycleSearch

open Rewiring (Acyclic acyclic_of_acc)

variable {α ε : Type} [DecidableEq α]

structure Visit (α : Type) where
  visited : List α
  stack : List α

section Definitions

variable (deps : α → List α) (found : List α → ε)

/-- One dependency of the node that `trace` ends with; `below` is the recursive call. -/
def follow (below : α → List α → Visit α → Except ε (Visit α)) (trace : List α) (s : Visit α)
    (dep : α) : Except ε (Visit α) :=
  if dep ∉ s.visited then below dep (trace ++ [dep]) s
  else if dep ∈ s.stack then .error (found (trace ++ [dep]))
  else .ok s

/-- Each call visits one node more, so `fuel` above their number is never used up. -/
def search : ℕ → α → List α → Visit α → Except ε (Visit α)
  | 0, _, _, s => .ok s
  | fuel + 1, id, trace, s =>
    ((deps id).foldlM (follow found (search fuel) trace) ⟨id :: s.visited, id :: s.stack⟩).map
      fun s => { s with stack := s.stack.erase id }

def searchAll (ids : List α) : Except ε (Visit α) :=
  ids.foldlM (fun s id => if id ∉ s.visited then search deps found ids.length id [id] s else .ok s)
    ⟨[], []⟩

end Definitions

variable {deps : α → List α} {found : List α → ε} {known : Finset α}

/-- What is left is on no cycle. -/
structure Sound (deps : α → List α) (s : Visit α) : Prop where
  stack : s.stack ⊆ s.visited
  left : ∀ v ∈ s.visited, v ∉ s.stack → Acc (fun b a => b ∈ deps a) v

def unvisited (known : Finset α) (s : Visit α) : ℕ := (known.filter (· ∉ s.visited)).card

theorem unvisited_mono {s s' : Visit α} (h : s.visited ⊆ s'.visited) :
    unvisited known s' ≤ unvisited known s :=
  Finset.card_le_card fun v hv => by
    simp only [Finset.mem_filter] at hv ⊢
    exact ⟨hv.1, fun hmem => hv.2 (h hmem)⟩

/-- What a search leaves behind. -/
structure Searched (deps : α → List α) (s : Visit α) (ids : List α) (s' : Visit α) : Prop where
  sound : Sound deps s'
  stack : s'.stack = s.stack
  grown : s.visited ⊆ s'.visited
  found : ∀ id ∈ ids, id ∈ s'.visited ∧ id ∉ s.stack

/-- What a call with so much fuel does. -/
def Spec (deps : α → List α) (known : Finset α) (below : α → List α → Visit α → Except ε (Visit α))
    (fuel : ℕ) : Prop :=
  ∀ id trace s s', Sound deps s → id ∈ known → id ∉ s.visited → unvisited known s ≤ fuel →
    below id trace s = .ok s' → Searched deps s [id] s'

theorem Searched.follow {fuel : ℕ} {below : α → List α → Visit α → Except ε (Visit α)}
    (hbelow : Spec deps known below fuel) {trace : List α} {dep : α} {s s' : Visit α}
    (hs : Sound deps s) (hdep : dep ∈ known) (hfuel : unvisited known s ≤ fuel)
    (h : follow found below trace s dep = .ok s') : Searched deps s [dep] s' := by
  unfold CycleSearch.follow at h
  split_ifs at h with hvisited hstack
  · obtain rfl := Except.ok.inj h
    refine ⟨hs, rfl, List.Subset.refl _, fun id hid => ?_⟩
    obtain rfl := List.mem_singleton.1 hid
    exact ⟨hvisited, hstack⟩
  · exact hbelow dep _ s s' hs hdep hvisited hfuel h

theorem Searched.loop {fuel : ℕ} {below : α → List α → Visit α → Except ε (Visit α)}
    (hbelow : Spec deps known below fuel) {trace ds : List α} {s s' : Visit α} (hs : Sound deps s)
    (hds : ∀ dep ∈ ds, dep ∈ known) (hfuel : unvisited known s ≤ fuel)
    (h : ds.foldlM (CycleSearch.follow found below trace) s = .ok s') : Searched deps s ds s' := by
  induction ds generalizing s with
  | nil =>
    obtain rfl := Except.ok.inj h
    exact ⟨hs, rfl, List.Subset.refl _, fun id hid => absurd hid List.not_mem_nil⟩
  | cons dep ds ih =>
    rw [List.foldlM_cons, except_bind_eq_ok] at h
    obtain ⟨s₁, h₁, h⟩ := h
    have hfirst := Searched.follow hbelow hs (hds dep List.mem_cons_self) hfuel h₁
    have hrest := ih hfirst.sound (fun d hd => hds d (List.mem_cons_of_mem _ hd))
      ((unvisited_mono hfirst.grown).trans hfuel) h
    refine ⟨hrest.sound, hrest.stack.trans hfirst.stack,
      List.Subset.trans hfirst.grown hrest.grown, fun id hid => ?_⟩
    obtain rfl | hid := List.mem_cons.1 hid
    · obtain ⟨hvisited, hstack⟩ := hfirst.found id (List.mem_singleton_self id)
      exact ⟨hrest.grown hvisited, hstack⟩
    · obtain ⟨hvisited, hstack⟩ := hrest.found id hid
      exact ⟨hvisited, hfirst.stack ▸ hstack⟩

theorem search_spec (hknown : ∀ a ∈ known, ∀ b ∈ deps a, b ∈ known) (fuel : ℕ) :
    Spec deps known (search deps found fuel) fuel := by
  induction fuel with
  | zero =>
    intro id trace s s' _ hid hnot hfuel _
    have hmem : id ∈ known.filter (· ∉ s.visited) := Finset.mem_filter.2 ⟨hid, hnot⟩
    have hpos := Finset.card_pos.2 ⟨id, hmem⟩
    unfold unvisited at hfuel
    omega
  | succ fuel ih =>
    intro id trace s s' hs hid hnot hfuel h
    rw [search, except_map_eq_ok] at h
    obtain ⟨s₁, hloop, rfl⟩ := h
    have hsound : Sound deps ⟨id :: s.visited, id :: s.stack⟩ := by
      refine ⟨List.cons_subset_cons id hs.stack, fun v hv hleft => ?_⟩
      rw [List.mem_cons, not_or] at hleft
      exact hs.left v ((List.mem_cons.1 hv).resolve_left hleft.1) hleft.2
    have hless : unvisited known ⟨id :: s.visited, id :: s.stack⟩ < unvisited known s := by
      apply Finset.card_lt_card
      refine ⟨fun v hv => ?_, fun hsub => ?_⟩
      · simp only [Finset.mem_filter, List.mem_cons, not_or] at hv ⊢
        exact ⟨hv.1, hv.2.2⟩
      · have hmem := hsub (Finset.mem_filter.2 ⟨hid, hnot⟩)
        simp at hmem
    have hdone := Searched.loop ih hsound (hknown id hid) (by omega) hloop
    have hstack : s₁.stack.erase id = s.stack := by
      rw [hdone.stack]
      exact List.erase_cons_head id s.stack
    have hacc : Acc (fun b a => b ∈ deps a) id := by
      refine ⟨id, fun dep hdep => ?_⟩
      obtain ⟨hvisited, hleft⟩ := hdone.found dep hdep
      exact hdone.sound.left dep hvisited (hdone.stack ▸ hleft)
    have hgrown : s.visited ⊆ s₁.visited :=
      List.Subset.trans (List.subset_cons_self id s.visited) hdone.grown
    refine ⟨⟨?_, fun v hv hleft => ?_⟩, hstack, hgrown, fun v hv => ?_⟩
    · exact hstack ▸ List.Subset.trans hs.stack hgrown
    · by_cases hvid : v = id
      · exact hvid ▸ hacc
      · refine hdone.sound.left v hv ?_
        rw [hdone.stack]
        exact List.not_mem_cons_of_ne_of_not_mem hvid (hstack ▸ hleft)
    · obtain rfl := List.mem_singleton.1 hv
      exact ⟨hdone.grown List.mem_cons_self, fun hmem => hnot (hs.stack hmem)⟩

/-- A search that comes to its end has found no cycle because there is none. -/
theorem searchAll_acyclic {ids : List α} {s : Visit α} (hroots : ∀ a, ∀ b ∈ deps a, a ∈ ids)
    (hknown : ∀ a, ∀ b ∈ deps a, b ∈ ids) (h : searchAll deps found ids = .ok s) :
    Acyclic fun a b => b ∈ deps a := by
  have hspec : Spec deps ids.toFinset (search deps found ids.length) ids.length :=
    search_spec (fun a _ b hb => List.mem_toFinset.2 (hknown a b hb)) ids.length
  have hloop : ∀ (rest : List α) (s s' : Visit α), rest ⊆ ids → Sound deps s → s.stack = [] →
      rest.foldlM (fun s id => if id ∉ s.visited then search deps found ids.length id [id] s
        else .ok s) s = .ok s' → ∀ id ∈ rest ++ s.visited, Acc (fun b a => b ∈ deps a) id := by
    intro rest
    induction rest with
    | nil =>
      intro s s' _ hs hstack h id hid
      exact hs.left id (by simpa using hid) (by simp [hstack])
    | cons root rest ih =>
      intro s s' hsub hs hstack h
      rw [List.foldlM_cons, except_bind_eq_ok] at h
      obtain ⟨s₁, h₁, h⟩ := h
      have hfirst : Searched deps s [root] s₁ := by
        split_ifs at h₁ with hvisited
        · obtain rfl := Except.ok.inj h₁
          refine ⟨hs, rfl, List.Subset.refl _, fun id hid => ?_⟩
          obtain rfl := List.mem_singleton.1 hid
          exact ⟨hvisited, by simp [hstack]⟩
        · refine hspec root _ s s₁ hs (List.mem_toFinset.2 (hsub List.mem_cons_self)) hvisited ?_ h₁
          exact (Finset.card_filter_le _ _).trans (List.toFinset_card_le ids)
      have hacc := ih s₁ s' (fun id hid => hsub (List.mem_cons_of_mem _ hid)) hfirst.sound
        (hfirst.stack.trans hstack) h
      intro id hid
      apply hacc
      simp only [List.cons_append, List.mem_cons, List.mem_append] at hid ⊢
      obtain rfl | hid | hid := hid
      · exact .inr (hfirst.found id (List.mem_singleton_self id)).1
      · exact .inl hid
      · exact .inr (hfirst.grown hid)
  have hsound : Sound deps (⟨[], []⟩ : Visit α) :=
    ⟨List.Subset.refl _, fun v hv => absurd hv List.not_mem_nil⟩
  have hacc := hloop ids _ s (List.Subset.refl _) hsound rfl h
  refine acyclic_of_acc fun a => ?_
  by_cases ha : ∃ b, b ∈ deps a
  · obtain ⟨b, hb⟩ := ha
    exact hacc a (by simp [hroots a b hb])
  · exact ⟨a, fun b hb => absurd ⟨b, hb⟩ ha⟩

end Wazir.CycleSearch
