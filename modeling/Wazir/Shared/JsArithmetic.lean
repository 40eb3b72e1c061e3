import Wazir.Shared.JsValue

/-! Sums, comparisons and rounding of JavaScript numbers. Finite numbers are exact. -/

namespace Wazir.JsNumber

def add : JsNumber → JsNumber → JsNumber
  | .nan, _ | _, .nan => .nan
  | .finite a, .finite b => .finite (a + b)
  | .infinite s, .infinite t => if s = t then .infinite s else .nan
  | .infinite s, .finite _ | .finite _, .infinite s => .infinite s

def neg : JsNumber → JsNumber
  | .finite q => .finite (-q)
  | .infinite s => .infinite !s
  | .nan => .nan

def sub (a b : JsNumber) : JsNumber := a.add b.neg

/-- `a <= b` -/
def le : JsNumber → JsNumber → Bool
  | .nan, _ | _, .nan => false
  | .finite a, .finite b => a ≤ b
  | .infinite true, _ | _, .infinite false => true
  | _, _ => false

/-- `a < b` -/
def lt (a b : JsNumber) : Bool := a.le b && !b.le a

/-- `a === b` -/
def same (a b : JsNumber) : Bool := a = b && a ≠ .nan

/-- `Math.max(a, b)` -/
def max (a b : JsNumber) : JsNumber :=
  if a = .nan ∨ b = .nan then .nan else if a.le b then b else a

/-- `Number(n.toFixed(6))` -/
def toFixed6 : JsNumber → JsNumber
  | .finite q =>
    if 10 ^ 21 ≤ |q| then .finite q
    else
      let micros := ⌊|q| * 10 ^ 6 + 1 / 2⌋
      .finite ((if q < 0 then -micros else micros) / 10 ^ 6)
  | n => n

def zero : JsNumber := .finite 0

theorem le_self {a : JsNumber} (h : a ≠ .nan) : a.le a = true := by
  cases a with
  | finite q => simp [le]
  | nan => exact absurd rfl h
  | infinite s => cases s <;> rfl

theorem le_antisymm {a b : JsNumber} (h : a.le b = true) (h' : b.le a = true) : a = b := by
  cases a with
  | nan => simp [le] at h
  | finite p =>
    cases b with
    | nan => simp [le] at h
    | finite q =>
      have hpq : p ≤ q := by simpa [le] using h
      have hqp : q ≤ p := by simpa [le] using h'
      obtain rfl := hpq.antisymm hqp
      rfl
    | infinite s => cases s <;> simp [le] at h h'
  | infinite s =>
    cases b with
    | nan => cases s <;> simp [le] at h
    | finite q => cases s <;> simp [le] at h h'
    | infinite t => cases s <;> cases t <;> simp [le] at h h' ⊢

/-- What is left after a clamp at zero counts as left exactly if there was something left. -/
theorem clamped_iff (left bound : JsNumber) :
    (zero.le (zero.max left) = true ∧ (zero.max left).le bound = true ∧ zero.max left ≠ zero) ↔
      zero.lt left = true ∧ left.le bound = true := by
  unfold max lt
  by_cases hnan : left = .nan
  · subst hnan
    simp [le, zero]
  · have hzero : ¬ (zero = .nan ∨ left = .nan) := by
      rintro (h | h)
      · cases h
      · exact hnan h
    rw [if_neg hzero]
    by_cases hle : zero.le left = true
    · rw [if_pos hle, hle]
      constructor
      · rintro ⟨-, hbound, hne⟩
        refine ⟨?_, hbound⟩
        rw [Bool.true_and, Bool.not_eq_true']
        by_contra hback
        exact hne (le_antisymm (by simpa using hback) hle)
      · rintro ⟨hlt, hbound⟩
        refine ⟨rfl, hbound, ?_⟩
        rintro rfl
        rw [hle] at hlt
        cases hlt
    · rw [if_neg hle]
      simp [hle]

end Wazir.JsNumber
