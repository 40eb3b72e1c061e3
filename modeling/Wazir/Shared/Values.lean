import Mathlib.Data.List.AList
import Mathlib.Tactic

/-! Values that every package passes around: JSON, tables by key, and computations that
throw. -/

namespace Wazir

/-- A record or store keyed by `κ`. -/
abbrev Table (κ α : Type) := AList fun _ : κ => α

inductive Json where
  | null
  | bool (b : Bool)
  | num (n : ℤ)
  | str (s : String)
  | arr (items : List Json)
  | obj (fields : List (String × Json))

def Json.text : Json → Option String
  | .str s => some s
  | _ => none

@[simp] theorem except_bind_eq_ok {ε α β : Type} {x : Except ε α} {f : α → Except ε β} {b : β} :
    x >>= f = .ok b ↔ ∃ a, x = .ok a ∧ f a = .ok b := by
  cases x <;> simp [bind, Except.bind]

@[simp] theorem except_map_eq_ok {ε α β : Type} {x : Except ε α} {f : α → β} {b : β} :
    x.map f = .ok b ↔ ∃ a, x = .ok a ∧ f a = b := by
  cases x <;> simp [Except.map]

/-- A store command may fail instead, and then has no effect. -/
def guarded {ε α : Type} (fault : Option ε) (a : α) : Except ε α :=
  match fault with
  | some e => .error e
  | none => .ok a

theorem guarded_ok {ε α : Type} {fault : Option ε} {a b : α} (h : guarded fault a = .ok b) :
    a = b := by
  cases fault with
  | none => exact Except.ok.inj h
  | some e => cases h

theorem guarded_error {ε α : Type} {fault : Option ε} {a : α} {x : ε}
    (h : guarded fault a = .error x) : fault = some x := by
  cases fault with
  | none => cases h
  | some e =>
    cases h
    rfl

/-- Inserting what a function tells of each key. -/
theorem lookup_foldl_insert {α β : Type} {f : ℕ → Option β} {k : α → ℕ} {v : α → β}
    {l : List α} (hf : ∀ a ∈ l, f (k a) = some (v a)) (m : Table ℕ β) (n : ℕ) :
    (l.foldl (fun m a => m.insert (k a) (v a)) m).lookup n =
      if n ∈ l.map k then f n else m.lookup n := by
  induction l generalizing m with
  | nil => simp
  | cons a rest ih =>
    rw [List.foldl_cons, ih fun b hb => hf b (List.mem_cons_of_mem _ hb)]
    by_cases hn : n ∈ rest.map k
    · simp [hn]
    by_cases ha : n = k a
    · subst ha
      simp only [hn, if_false, List.map_cons, List.mem_cons, true_or, if_true]
      rw [AList.lookup_insert, hf a (List.mem_cons_self ..)]
    · simp [hn, ha, AList.lookup_insert_ne ha]

end Wazir
