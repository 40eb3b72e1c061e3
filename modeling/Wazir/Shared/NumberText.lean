import Wazir.Shared.JsValue
import Mathlib.Data.List.TakeWhile

/-! The text of a whole number tells the number. -/

namespace Wazir

/-- The digits up to the last one that is not `0`. -/
def significant (digits : List Char) : List Char := (digits.reverse.dropWhile (· = '0')).reverse

theorem significant_append (digits : List Char) :
    significant digits ++ List.replicate (digits.length - (significant digits).length) '0' =
      digits := by
  have hsplit := List.takeWhile_append_dropWhile (p := (· = '0')) (l := digits.reverse)
  have hzeros : digits.reverse.takeWhile (· = '0') =
      List.replicate (digits.reverse.takeWhile (· = '0')).length '0' :=
    List.eq_replicate_of_mem fun c hc => by simpa using List.mem_takeWhile_imp hc
  have hlen := congrArg List.length hsplit
  have hback := congrArg List.reverse hsplit
  simp only [List.length_append, List.length_reverse] at hlen
  rw [List.reverse_append, List.reverse_reverse, hzeros, List.reverse_replicate] at hback
  have hcount : digits.length - (significant digits).length =
      (digits.reverse.takeWhile (· = '0')).length := by
    rw [significant, List.length_reverse]
    omega
  rw [hcount, significant, hback]

theorem mem_significant {digits : List Char} {c : Char} (h : c ∈ significant digits) :
    c ∈ digits :=
  List.mem_reverse.mp ((List.dropWhile_sublist _).subset (List.mem_reverse.mp h))

theorem decimalPlaces_nat (m : ℕ) : decimalPlaces m = 0 := by
  have hrange : List.range 400 = 0 :: (List.range 399).map Nat.succ := List.range_succ_eq_map
  rw [decimalPlaces, hrange, List.find?_cons_of_pos (by simp)]
  rfl

def mantissa (digits : List Char) : List Char :=
  if digits.length = 1 then digits else digits.take 1 ++ '.' :: digits.drop 1

theorem positiveText_nat (m : ℕ) : positiveText m =
    if (Nat.toDigits 10 m).length ≤ 21 then Nat.toDigits 10 m
    else mantissa (significant (Nat.toDigits 10 m)) ++
      'e' :: '+' :: Nat.toDigits 10 ((Nat.toDigits 10 m).length - 1) := by
  have happend := significant_append (Nat.toDigits 10 m)
  have hall : (m : ℚ).num.toNat * 10 ^ decimalPlaces m / (m : ℚ).den = m := by
    rw [decimalPlaces_nat]
    simp
  simp only [positiveText, hall]
  rw [decimalPlaces_nat]
  generalize Nat.toDigits 10 m = digits at happend ⊢
  have hlen := congrArg List.length happend
  rw [List.length_append] at hlen
  have hcast : (digits.length : ℤ) - (0 : ℕ) = digits.length := by simp
  rw [hcast, Int.toNat_natCast, ← significant]
  have hexp : ((digits.length : ℤ) - 1).natAbs = digits.length - 1 ∨ digits.length = 0 := by omega
  by_cases h21 : digits.length ≤ 21
  · rw [if_pos ⟨by omega, by omega⟩, if_pos h21, happend]
  · have hsign : (if (0 : ℤ) < digits.length then ['+'] else ['-']) = ['+'] :=
      if_pos (by omega)
    rw [if_neg (by omega), if_neg (by omega), if_neg (by omega), if_neg h21, hsign,
      hexp.resolve_right (by omega), mantissa]
    split_ifs <;> simp

theorem mantissa_filter {digits : List Char} (h : '.' ∉ digits) :
    (mantissa digits).filter (· ≠ '.') = digits := by
  have hkeep : digits.filter (· ≠ '.') = digits :=
    List.filter_eq_self.mpr fun c hc => decide_eq_true fun hdot => h (hdot ▸ hc)
  rw [mantissa]
  split_ifs
  · exact hkeep
  · calc (digits.take 1 ++ '.' :: digits.drop 1).filter (· ≠ '.')
        = (digits.take 1 ++ digits.drop 1).filter (· ≠ '.') := by
          rw [List.filter_append, List.filter_append]
          rfl
      _ = digits := by rw [List.take_append_drop, hkeep]

theorem notMem_toDigits {n : ℕ} {c : Char} (h : c.isDigit = false) : c ∉ Nat.toDigits 10 n := by
  intro hc
  have hdigit := Nat.isDigit_of_mem_toDigits (by omega) (by omega) hc
  rw [h] at hdigit
  cases hdigit

theorem notMem_mantissa {n : ℕ} : 'e' ∉ mantissa (significant (Nat.toDigits 10 n)) := by
  have hsig : 'e' ∉ significant (Nat.toDigits 10 n) :=
    fun h => notMem_toDigits (by decide) (mem_significant h)
  rw [mantissa]
  split_ifs
  · exact hsig
  · intro h
    rcases List.mem_append.mp h with h | h
    · exact hsig (List.mem_of_mem_take h)
    · rcases List.mem_cons.mp h with h | h
      · cases h
      · exact hsig (List.mem_of_mem_drop h)

theorem toDigits_inj {m n : ℕ} (h : Nat.toDigits 10 m = Nat.toDigits 10 n) : m = n := by
  rw [← Nat.ofDigitChars_ten_toDigits (n := m), h, Nat.ofDigitChars_ten_toDigits]

/-- Text up to the first separator. -/
theorem separator_inj {α : Type} {c : α} {a b s t : List α} (ha : c ∉ a) (hb : c ∉ b)
    (h : a ++ c :: s = b ++ c :: t) : a = b ∧ s = t := by
  induction a generalizing b with
  | nil =>
    cases b with
    | nil => exact ⟨rfl, (List.cons.inj h).2⟩
    | cons y b => exact absurd ((List.cons.inj h).1 ▸ List.mem_cons_self) hb
  | cons x a ih =>
    cases b with
    | nil => exact absurd ((List.cons.inj h).1 ▸ List.mem_cons_self) ha
    | cons y b =>
      obtain ⟨hxy, hrest⟩ := List.cons.inj h
      obtain ⟨hab, hst⟩ := ih (fun hc => ha (List.mem_cons_of_mem _ hc))
        (fun hc => hb (List.mem_cons_of_mem _ hc)) hrest
      exact ⟨by rw [hxy, hab], hst⟩

theorem positiveText_inj {m n : ℕ} (h : positiveText m = positiveText n) : m = n := by
  rw [positiveText_nat, positiveText_nat] at h
  split_ifs at h with hm hn hn
  · exact toDigits_inj h
  · have he : 'e' ∈ Nat.toDigits 10 m := by simp [h]
    exact absurd he (notMem_toDigits (by decide))
  · have he : 'e' ∈ Nat.toDigits 10 n := by simp [← h]
    exact absurd he (notMem_toDigits (by decide))
  · obtain ⟨hmant, hexp⟩ := separator_inj notMem_mantissa notMem_mantissa h
    have hlen := toDigits_inj (List.cons.inj hexp).2
    have hsig := congrArg (List.filter (· ≠ '.')) hmant
    rw [mantissa_filter fun hc => notMem_toDigits (by decide) (mem_significant hc),
      mantissa_filter fun hc => notMem_toDigits (by decide) (mem_significant hc)] at hsig
    apply toDigits_inj
    rw [← significant_append (Nat.toDigits 10 m), ← significant_append (Nat.toDigits 10 n), hsig,
      show (Nat.toDigits 10 m).length = (Nat.toDigits 10 n).length by omega]

theorem numberText_nat_inj {m n : ℕ} (h : numberText (.finite m) = numberText (.finite n)) :
    m = n := by
  have hzero : ∀ k : ℕ, 0 < k → positiveText k ≠ ['0'] := by
    intro k hk hzero
    have hdigits : positiveText k = Nat.toDigits 10 0 := hzero
    rw [positiveText_nat] at hdigits
    split_ifs at hdigits
    · exact hk.ne' (toDigits_inj hdigits)
    · have he : 'e' ∈ Nat.toDigits 10 0 := by simp [← hdigits]
      exact absurd he (by decide)
  have hneg : ∀ k : ℕ, ¬ (k : ℚ) < 0 := fun k => not_lt.mpr (Nat.cast_nonneg k)
  simp only [numberText, hneg, if_false, Nat.cast_eq_zero] at h
  split_ifs at h with hm hn hn
  · rw [hm, hn]
  · exact absurd h.symm (hzero n (by omega))
  · exact absurd h (hzero m (by omega))
  · exact positiveText_inj h

end Wazir
