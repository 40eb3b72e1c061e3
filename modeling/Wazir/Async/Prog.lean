import Mathlib.Tactic

/-! Asynchronous procedures as trees of awaited commands. A procedure runs without
interruption up to its next command, waits for the command's result and goes on; what
other procedures do in the meantime happens between two commands. -/

namespace Wazir.Async

variable {Op : Type} {Res : Op → Type} {Err α β γ : Type}

/-- A procedure that awaits commands of `Op` and ends in a value or an exception. -/
inductive Prog (Op : Type) (Res : Op → Type) (Err α : Type) where
  | ret (a : α)
  | raise (e : Err)
  | call (op : Op) (next : Res op → Prog Op Res Err α)

namespace Prog

def bind : Prog Op Res Err α → (α → Prog Op Res Err β) → Prog Op Res Err β
  | .ret a, f => f a
  | .raise e, _ => .raise e
  | .call op next, f => .call op fun r => (next r).bind f

/-- Run to the end, then hand the outcome, value or exception, to `f`. -/
def settle : Prog Op Res Err α → (Except Err α → Prog Op Res Err β) → Prog Op Res Err β
  | .ret a, f => f (.ok a)
  | .raise e, f => f (.error e)
  | .call op next, f => .call op fun r => (next r).settle f

/-- End with a given outcome. -/
def resume : Except Err α → Prog Op Res Err α
  | .ok a => .ret a
  | .error e => .raise e

def handle (p : Prog Op Res Err α) (handler : Err → Prog Op Res Err α) : Prog Op Res Err α :=
  p.settle fun
    | .ok a => .ret a
    | .error e => handler e

/-- `try { p } finally { cleanup }`. -/
def ensure (p : Prog Op Res Err α) (cleanup : Prog Op Res Err Unit) : Prog Op Res Err α :=
  p.settle fun out => cleanup.bind fun _ => resume out

/-- Run to the end while nothing else is going on. -/
def alone {Shared : Type} (exec : (op : Op) → Shared → Res op × Shared) :
    Prog Op Res Err α → Shared → Except Err α × Shared
  | .ret a, s => (.ok a, s)
  | .raise e, s => (.error e, s)
  | .call op next, s => (next (exec op s).1).alone exec (exec op s).2

instance : Monad (Prog Op Res Err) where
  pure := ret
  bind := bind

instance : MonadExceptOf Err (Prog Op Res Err) where
  throw := raise
  tryCatch := Prog.handle

@[simp] theorem pure_def (a : α) : (pure a : Prog Op Res Err α) = .ret a := rfl

@[simp] theorem throw_def (e : Err) : (throw e : Prog Op Res Err α) = .raise e := rfl

@[simp] theorem bind_def (p : Prog Op Res Err α) (f : α → Prog Op Res Err β) :
    p >>= f = p.bind f := rfl

@[simp] theorem map_def (f : α → β) (p : Prog Op Res Err α) :
    f <$> p = p.bind fun a => .ret (f a) := rfl

@[simp] theorem bind_ret (a : α) (f : α → Prog Op Res Err β) : (ret a).bind f = f a := rfl

@[simp] theorem bind_raise (e : Err) (f : α → Prog Op Res Err β) :
    (raise e : Prog Op Res Err α).bind f = .raise e := rfl

@[simp] theorem bind_call (op : Op) (next : Res op → Prog Op Res Err α)
    (f : α → Prog Op Res Err β) :
    (call op next).bind f = .call op fun r => (next r).bind f := rfl

@[simp] theorem resume_ok (a : α) : (resume (.ok a) : Prog Op Res Err α) = .ret a := rfl

@[simp] theorem resume_error (e : Err) : (resume (.error e) : Prog Op Res Err α) = .raise e := rfl

theorem bind_eq_settle (p : Prog Op Res Err α) (f : α → Prog Op Res Err β) :
    p.bind f = p.settle fun
      | .ok a => f a
      | .error e => .raise e := by
  induction p with
  | ret a => rfl
  | raise e => rfl
  | call op next ih => simp only [bind, settle, ih]

theorem bind_assoc (p : Prog Op Res Err α) (f : α → Prog Op Res Err β)
    (g : β → Prog Op Res Err γ) : (p.bind f).bind g = p.bind fun a => (f a).bind g := by
  induction p with
  | ret a => rfl
  | raise e => rfl
  | call op next ih => simp only [bind, ih]

/-- Every command the procedure may execute satisfies `P`. -/
def Only (P : Op → Prop) : Prog Op Res Err α → Prop
  | .ret _ => True
  | .raise _ => True
  | .call op next => P op ∧ ∀ r, (next r).Only P

variable {P : Op → Prop}

@[simp] theorem only_ret {a : α} : (ret a : Prog Op Res Err α).Only P := trivial

@[simp] theorem only_raise {e : Err} : (raise e : Prog Op Res Err α).Only P := trivial

@[simp] theorem only_resume {r : Except Err α} : (resume r : Prog Op Res Err α).Only P := by
  cases r <;> trivial

@[simp] theorem only_call {op : Op} {next : Res op → Prog Op Res Err α} :
    (call op next).Only P ↔ P op ∧ ∀ r, (next r).Only P := Iff.rfl

theorem Only.mono {Q : Op → Prop} (hPQ : ∀ op, P op → Q op) {p : Prog Op Res Err α}
    (hp : p.Only P) : p.Only Q := by
  induction p with
  | ret a => trivial
  | raise e => trivial
  | call op next ih => exact ⟨hPQ op hp.1, fun r => ih r (hp.2 r)⟩

theorem Only.settle {p : Prog Op Res Err α} {f : Except Err α → Prog Op Res Err β}
    (hp : p.Only P) (hf : ∀ out, (f out).Only P) : (p.settle f).Only P := by
  induction p with
  | ret a => exact hf _
  | raise e => exact hf _
  | call op next ih => exact ⟨hp.1, fun r => ih r (hp.2 r)⟩

theorem Only.bind {p : Prog Op Res Err α} {f : α → Prog Op Res Err β} (hp : p.Only P)
    (hf : ∀ a, (f a).Only P) : (p.bind f).Only P := by
  rw [bind_eq_settle]
  refine hp.settle fun out => ?_
  cases out with
  | ok a => exact hf a
  | error e => trivial

theorem Only.handle {p : Prog Op Res Err α} {f : Err → Prog Op Res Err α} (hp : p.Only P)
    (hf : ∀ e, (f e).Only P) : (p.handle f).Only P := by
  refine hp.settle fun out => ?_
  cases out with
  | ok a => trivial
  | error e => exact hf e

end Prog

end Wazir.Async
