import Wazir.Shared.Throwing

/-! Calls on a state: each returns or throws, and leaves a state either way. -/

namespace Wazir

/-- What the call gives, and the state that it leaves. -/
def Call (σ α : Type) := σ → Except String α × σ

namespace Call

variable {σ α β : Type}

def ok (a : α) : Call σ α := fun s => (.ok a, s)

def bind (x : Call σ α) (f : α → Call σ β) : Call σ β := fun s =>
  match x s with
  | (.ok a, t) => f a t
  | (.error e, t) => (.error e, t)

instance : Monad (Call σ) where
  pure := ok
  bind := bind

/-- A computation that only looks. -/
def lift (x : Except String α) : Call σ α := fun s => (x, s)

/-- A step that does not throw. -/
def act (f : σ → α × σ) : Call σ α := fun s => (.ok (f s).1, (f s).2)

def modify (f : σ → σ) : Call σ Unit := act fun s => ((), f s)

@[simp] theorem pure_ok {a b : α} {s t : σ} :
    (pure a : Call σ α) s = (.ok b, t) ↔ a = b ∧ s = t := by
  constructor
  · intro h
    cases h
    exact ⟨rfl, rfl⟩
  · rintro ⟨rfl, rfl⟩
    rfl

@[simp] theorem bind_ok {x : Call σ α} {f : α → Call σ β} {s u : σ} {b : β} :
    (x >>= f) s = (.ok b, u) ↔ ∃ a t, x s = (.ok a, t) ∧ f a t = (.ok b, u) := by
  change (match x s with | (.ok a, t) => f a t | (.error e, t) => (.error e, t)) = _ ↔ _
  rcases x s with ⟨_ | a, t⟩
  · simp
  · simp

@[simp] theorem lift_ok {x : Except String α} {a : α} {s t : σ} :
    lift x s = (.ok a, t) ↔ x = .ok a ∧ s = t := by
  rw [lift, Prod.mk.injEq]

@[simp] theorem act_ok {f : σ → α × σ} {a : α} {s t : σ} :
    act f s = (.ok a, t) ↔ f s = (a, t) := by
  simp [act, Prod.ext_iff]

@[simp] theorem modify_ok {f : σ → σ} {u : Unit} {s t : σ} :
    modify f s = (.ok u, t) ↔ f s = t := by
  simp [modify]

/-- A loop of calls that all return. -/
theorem forM_ok {f : β → Call σ Unit} {g : σ → β → σ} {l : List β}
    (step : ∀ b ∈ l, ∀ s, f b s = (.ok (), g s b)) (s : σ) :
    l.forM f s = (.ok (), l.foldl g s) := by
  induction l generalizing s with
  | nil => rfl
  | cons b rest ih =>
    have hhead := step b List.mem_cons_self s
    have hrest := ih (fun c hc => step c (List.mem_cons_of_mem _ hc)) (g s b)
    exact bind_ok.mpr ⟨(), g s b, hhead, hrest⟩

/-- The state that a loop of calls leaves. -/
theorem forM_foldl {f : β → Call σ Unit} {g : σ → β → σ}
    (step : ∀ b s t, f b s = (.ok (), t) → t = g s b) {l : List β} {s t : σ}
    (run : l.forM f s = (.ok (), t)) : t = l.foldl g s := by
  induction l generalizing s with
  | nil => exact (pure_ok.mp run).2.symm
  | cons b rest ih =>
    obtain ⟨⟨⟩, u, hhead, hrest⟩ := bind_ok.mp run
    rw [ih hrest, step b s u hhead, List.foldl_cons]

end Call

/-- `if (bad) throw new Error(error)` -/
def throwIf (bad : Bool) (error : String) : Except String Unit :=
  if bad then .error error else .ok ()

@[simp] theorem throwIf_ok {bad : Bool} {error : String} {u : Unit} :
    throwIf bad error = .ok u ↔ bad = false := by
  cases bad <;> simp [throwIf]

theorem mapM_total {α β ε : Type} {f : α → Except ε β} {l : List α}
    (h : ∀ a ∈ l, ∃ b, f a = .ok b) : ∃ out, l.mapM f = .ok out := by
  induction l with
  | nil => exact ⟨[], rfl⟩
  | cons a rest ih =>
    obtain ⟨⟨b, hb⟩, hrest⟩ := List.forall_mem_cons.mp h
    obtain ⟨out, hout⟩ := ih hrest
    exact ⟨b :: out, by rw [List.mapM_cons, hb, hout]; rfl⟩

theorem forM_except_ok {α : Type} {f : α → Except String Unit} {l : List α} {u : Unit} :
    l.forM f = .ok u ↔ ∀ a ∈ l, f a = .ok () := by
  induction l with
  | nil => simp [pure, Except.pure]
  | cons a rest ih =>
    rw [List.forall_mem_cons]
    constructor
    · intro h
      obtain ⟨⟨⟩, ha, hrest⟩ := except_bind_eq_ok.mp h
      exact ⟨ha, ih.mp hrest⟩
    · intro h
      exact except_bind_eq_ok.mpr ⟨(), h.1, ih.mpr h.2⟩

end Wazir
