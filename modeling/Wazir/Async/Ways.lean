import Wazir.Async.Prog

/-! Where a procedure comes to while its commands come back as they should: to a value, or through a
marked command to one. -/

namespace Wazir.Async.Prog

variable {Op Op' : Type} {Res : Op → Type} {Res' : Op' → Type} {Err α β : Type}

/-- The procedure with commands of another kind. -/
def lift (command : Op → Op') (back : ∀ op, Res' (command op) → Res op) :
    Prog Op Res Err α → Prog Op' Res' Err α
  | .ret a => .ret a
  | .raise e => .raise e
  | .call op next => .call (command op) fun r => (next (back op r)).lift command back

/-- With fine results the procedure ends in a value that meets `Q`. -/
def Ways (fine : ∀ op, Res op → Prop) (Q : α → Prop) : Prog Op Res Err α → Prop
  | .ret a => Q a
  | .raise _ => False
  | .call op next => ∀ r, fine op r → (next r).Ways fine Q

/-- With fine results the procedure ends in a value, and goes through a marked command unless one is
behind it. -/
def Passes (fine : ∀ op, Res op → Prop) (mark : Op → Prop) (behind : Prop) :
    Prog Op Res Err α → Prop
  | .ret _ => behind
  | .raise _ => False
  | .call op next => ∀ r, fine op r → (next r).Passes fine mark (behind ∨ mark op)

variable {fine : ∀ op, Res op → Prop} {mark : Op → Prop} {behind : Prop}

theorem Ways.mono {Q Q' : α → Prop} {p : Prog Op Res Err α} (h : p.Ways fine Q)
    (himp : ∀ a, Q a → Q' a) : p.Ways fine Q' := by
  induction p with
  | ret a => exact himp a h
  | raise e => exact h
  | call op next ih => exact fun r hr => ih r (h r hr)

theorem Ways.bind {Q : β → Prop} {p : Prog Op Res Err α} {f : α → Prog Op Res Err β}
    (h : p.Ways fine fun a => (f a).Ways fine Q) : (p.bind f).Ways fine Q := by
  induction p with
  | ret a => exact h
  | raise e => exact h
  | call op next ih => exact fun r hr => ih r (h r hr)

theorem Ways.lift {fine' : ∀ op, Res' op → Prop} {Q : α → Prop} {command : Op' → Op}
    {back : ∀ op, Res (command op) → Res' op} {p : Prog Op' Res' Err α} (h : p.Ways fine' Q)
    (hfine : ∀ op r, fine (command op) r → fine' op (back op r)) :
    (p.lift command back).Ways fine Q := by
  induction p with
  | ret a => exact h
  | raise e => exact h
  | call op next ih => exact fun r hr => ih _ (h _ (hfine op r hr))

theorem Passes.mono {behind' : Prop} {p : Prog Op Res Err α} (h : p.Passes fine mark behind)
    (himp : behind → behind') : p.Passes fine mark behind' := by
  induction p generalizing behind behind' with
  | ret a => exact himp h
  | raise e => exact h
  | call op next ih => exact fun r hr => ih r (h r hr) (Or.imp_left himp)

theorem Passes.bind {p : Prog Op Res Err α} {f : α → Prog Op Res Err β}
    (h : p.Ways fine fun a => (f a).Passes fine mark behind) :
    (p.bind f).Passes fine mark behind := by
  suffices hgen : ∀ behind' : Prop, (behind → behind') → (p.bind f).Passes fine mark behind' from
    hgen behind id
  induction p with
  | ret a => exact fun _ himp => Passes.mono h himp
  | raise e => exact h.elim
  | call op next ih => exact fun _ himp r hr => ih r (h r hr) _ fun hb => .inl (himp hb)

theorem Passes.lift {fine' : ∀ op, Res' op → Prop} {mark' : Op' → Prop} {command : Op' → Op}
    {back : ∀ op, Res (command op) → Res' op} {p : Prog Op' Res' Err α}
    (h : p.Passes fine' mark' behind) (hfine : ∀ op r, fine (command op) r → fine' op (back op r))
    (hmark : ∀ op, mark' op → mark (command op)) : (p.lift command back).Passes fine mark behind := by
  suffices hgen : ∀ behind' : Prop, (behind → behind') →
      (p.lift command back).Passes fine mark behind' from hgen behind id
  induction p generalizing behind with
  | ret a => exact fun _ himp => himp h
  | raise e => exact h.elim
  | call op next ih =>
    exact fun _ himp r hr => ih _ (h _ (hfine op r hr)) _ (Or.imp himp (hmark op))

end Wazir.Async.Prog
