import Mathlib.Logic.Basic

/-! Machines that take one event after the other, and the states of their runs. -/

namespace Wazir.Async

variable {σ ε : Type} {step : σ → ε → Option σ} {cond : σ → ε → Prop} {s₀ s : σ}

/-- The states of the runs from `s₀` whose events all meet `cond`. -/
inductive Reached (step : σ → ε → Option σ) (cond : σ → ε → Prop) (s₀ : σ) : σ → Prop
  | init : Reached step cond s₀ s₀
  | next {s s' : σ} {e : ε} (before : Reached step cond s₀ s) (meets : cond s e)
      (taken : step s e = some s') : Reached step cond s₀ s'

namespace Reached

theorem invariant {P : σ → Prop} (h : Reached step cond s₀ s) (hinit : P s₀)
    (hstep : ∀ s s' e, P s → cond s e → step s e = some s' → P s') : P s := by
  induction h with
  | init => exact hinit
  | next _ meets taken ih => exact hstep _ _ _ ih meets taken

/-- A run of the machine, event by event. -/
def run (step : σ → ε → Option σ) : σ → List ε → Option σ
  | s, [] => some s
  | s, e :: rest => (step s e).bind fun s' => run step s' rest

/-- Each event of the run meets the condition. -/
def meets (step : σ → ε → Option σ) (cond : σ → ε → Bool) : σ → List ε → Bool
  | _, [] => true
  | s, e :: rest => cond s e && (step s e).all fun s' => meets step cond s' rest

theorem of_run (check : σ → ε → Bool) (hcheck : ∀ s e, check s e = true → cond s e)
    (events : List ε) (hmeets : meets step check s events = true) {t : σ}
    (hrun : run step s events = some t) (h : Reached step cond s₀ s) : Reached step cond s₀ t := by
  induction events generalizing s with
  | nil =>
    obtain rfl := Option.some.inj hrun
    exact h
  | cons e rest ih =>
    obtain ⟨s', hs', hrest⟩ := Option.bind_eq_some_iff.mp hrun
    simp only [meets, Bool.and_eq_true, hs', Option.all_some] at hmeets
    exact ih hmeets.2 hrest (.next h (hcheck _ _ hmeets.1) hs')

end Reached

end Wazir.Async
