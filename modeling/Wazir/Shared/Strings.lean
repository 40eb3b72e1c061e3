import Mathlib.Algebra.Group.Nat.Defs
import Mathlib.Data.List.Sort

/-! JavaScript strings where they differ from Lean's: they are compared by UTF-16 code units,
and `trim` knows a fixed set of white space and line terminators. -/

namespace Wazir

def utf16 (s : String) : List ℕ :=
  s.toList.flatMap fun c =>
    if c.toNat < 0x10000 then [c.toNat]
    else [0xD800 + (c.toNat - 0x10000) / 0x400, 0xDC00 + (c.toNat - 0x10000) % 0x400]

/-- `a < b ? -1 : a > b ? 1 : 0`. -/
def compareStrings (a b : String) : Ordering :=
  if utf16 a < utf16 b then .lt else if utf16 b < utf16 a then .gt else .eq

def isLineTerminator (c : Char) : Bool :=
  c.toNat ∈ [0x0A, 0x0D, 0x2028, 0x2029]

def isWhiteSpace (c : Char) : Bool :=
  isLineTerminator c || c.toNat ∈ [0x09, 0x0B, 0x0C, 0x20, 0xA0, 0x1680, 0x202F, 0x205F, 0x3000,
    0xFEFF] || (0x2000 ≤ c.toNat && c.toNat ≤ 0x200A)

/-- `String.prototype.trim`. -/
def trim (s : String) : String :=
  String.ofList (((s.toList.dropWhile isWhiteSpace).reverse.dropWhile isWhiteSpace).reverse)

theorem trim_eq_self {s : String} (h : ∀ c ∈ s.toList, isWhiteSpace c = false) : trim s = s := by
  have hkeep : ∀ cs : List Char, (∀ c ∈ cs, isWhiteSpace c = false) →
      cs.dropWhile isWhiteSpace = cs := by
    intro cs hcs
    cases cs with
    | nil => rfl
    | cons c rest => rw [List.dropWhile_cons_of_neg (by simp [hcs c List.mem_cons_self])]
  rw [trim, hkeep _ h, hkeep _ fun c hc => h c (List.mem_reverse.mp hc), List.reverse_reverse,
    String.ofList_toList]

theorem isWhiteSpace_digit {c : Char} (h : c.isDigit = true) : isWhiteSpace c = false := by
  have hrange : 48 ≤ c.toNat ∧ c.toNat ≤ 57 := Char.isDigit_iff_toNat.mp h
  simp [isWhiteSpace, isLineTerminator]
  omega

/-- `String(n).padStart(width, '0')`. -/
def padded (width n : ℕ) : String :=
  let digits := toString n
  String.ofList (List.replicate (width - digits.length) '0') ++ digits

theorem padded_toList (width n : ℕ) : (padded width n).toList =
    List.replicate (width - (toString n).length) '0' ++ Nat.toDigits 10 n := by
  simp [padded, Nat.toString_eq_repr, Nat.toList_repr]

theorem padded_digits {width n : ℕ} : ∀ c ∈ (padded width n).toList, c.isDigit = true := by
  intro c hc
  rw [padded_toList] at hc
  rcases List.mem_append.mp hc with h | h
  · rw [List.eq_of_mem_replicate h]
    decide
  · exact Nat.isDigit_of_mem_toDigits (by omega) (by omega) h

theorem padded_length {width n : ℕ} (hw : 0 < width) (h : n < 10 ^ width) :
    (padded width n).toList.length = width := by
  have hdigits := (Nat.length_toDigits_le_iff (by omega) hw).mpr h
  rw [padded_toList, List.length_append, List.length_replicate, Nat.toString_eq_repr,
    ← String.length_toList, Nat.toList_repr]
  omega

theorem padded_inj {width m n : ℕ} (h : padded width m = padded width n) : m = n := by
  have hzeros : ∀ k (cs : List Char),
      Nat.ofDigitChars 10 (List.replicate k '0' ++ cs) 0 = Nat.ofDigitChars 10 cs 0 := by
    intro k cs
    induction k with
    | zero => rfl
    | succ k ih => exact ih
  have hread : ∀ k, Nat.ofDigitChars 10 (padded width k).toList 0 = k := by
    intro k
    rw [padded_toList, hzeros, Nat.ofDigitChars_ten_toDigits]
  rw [← hread m, h, hread n]

/-- `Array.prototype.sort` with a comparator: stable. -/
def sortBy {α : Type} (cmp : α → α → Ordering) (l : List α) : List α :=
  l.insertionSort fun a b => cmp a b ≠ .gt

theorem mem_sortBy {α : Type} {cmp : α → α → Ordering} {l : List α} {a : α} :
    a ∈ sortBy cmp l ↔ a ∈ l :=
  List.mem_insertionSort _

theorem sortBy_map_on {α β : Type} {cmp : α → α → Ordering} {cmp' : β → β → Ordering} {f : α → β}
    {l : List α} (h : ∀ a ∈ l, ∀ b ∈ l, cmp' (f a) (f b) = cmp a b) :
    sortBy cmp' (l.map f) = (sortBy cmp l).map f := by
  refine (List.map_insertionSort _ _ f l fun a ha b hb => ?_).symm
  rw [h a ha b hb]

theorem sortBy_map {α β : Type} {cmp : α → α → Ordering} {cmp' : β → β → Ordering} {f : α → β}
    (h : ∀ a b, cmp' (f a) (f b) = cmp a b) (l : List α) :
    sortBy cmp' (l.map f) = (sortBy cmp l).map f :=
  sortBy_map_on fun a _ b _ => h a b

end Wazir
