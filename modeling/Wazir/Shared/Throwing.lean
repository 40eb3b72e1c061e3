import Wazir.Shared.Values

/-! Computations that throw, one after the other. -/

namespace Wazir

theorem mapM_ok {α β ε : Type} {f : α → Except ε β} {l : List α} {out : List β} :
    l.mapM f = .ok out ↔ List.Forall₂ (fun a b => f a = .ok b) l out := by
  induction l generalizing out with
  | nil =>
    rw [List.mapM_nil, List.forall₂_nil_left_iff]
    exact ⟨fun h => (Except.ok.inj h).symm, fun h => h ▸ rfl⟩
  | cons a rest ih =>
    rw [List.mapM_cons, List.forall₂_cons_left_iff]
    simp only [except_bind_eq_ok, ih]
    constructor
    · rintro ⟨b, hb, bs, hbs, hout⟩
      exact ⟨b, bs, hb, hbs, (Except.ok.inj hout).symm⟩
    · rintro ⟨b, bs, hb, hbs, rfl⟩
      exact ⟨b, hb, bs, hbs, rfl⟩

theorem exists_of_forall₂ {α β : Type} {R : α → β → Prop} {l : List α} {l' : List β}
    (h : List.Forall₂ R l l') {a : α} (ha : a ∈ l) : ∃ b ∈ l', R a b := by
  induction h with
  | nil => cases ha
  | cons hab _ ih =>
    rcases List.mem_cons.mp ha with rfl | hrest
    · exact ⟨_, List.mem_cons_self, hab⟩
    · obtain ⟨b, hb, hab⟩ := ih hrest
      exact ⟨b, List.mem_cons_of_mem _ hb, hab⟩

theorem mapM_ok_map {α β ε : Type} {f : α → Except ε β} {g : α → β} {l : List α}
    (h : ∀ a ∈ l, f a = .ok (g a)) : l.mapM f = .ok (l.map g) := by
  induction l with
  | nil => rfl
  | cons a rest ih =>
    obtain ⟨ha, hrest⟩ := List.forall_mem_cons.mp h
    rw [List.mapM_cons, ha, ih hrest]
    rfl

theorem mapM_error {α β ε : Type} {f : α → Except ε β} {l : List α}
    (h : ∃ a ∈ l, ∃ e, f a = .error e) : ∃ e, l.mapM f = .error e := by
  induction l with
  | nil =>
    obtain ⟨a, ha, -⟩ := h
    cases ha
  | cons a rest ih =>
    rw [List.mapM_cons]
    cases hfa : f a with
    | error e => exact ⟨e, rfl⟩
    | ok b =>
      obtain ⟨a', ha', e, he⟩ := h
      have hne : a' ≠ a := by
        rintro rfl
        rw [hfa] at he
        cases he
      obtain ⟨e', he'⟩ := ih ⟨a', (List.mem_cons.mp ha').resolve_left hne, e, he⟩
      exact ⟨e', by rw [he']; rfl⟩

end Wazir
