import Wazir.Shared.Dates

/-! The ISO text of an instant tells it apart from every other: the calendar date can be counted back to
its day, and each part of the text has its place. -/

namespace Wazir

/-- The day of a calendar date, counted from 1970-01-01. -/
def dayNumber (date : ℤ × ℤ × ℤ) : ℤ :=
  let (year, month, day) := date
  let marchYear := if month ≤ 2 then year - 1 else year
  let marchMonth := if month ≤ 2 then month + 9 else month - 3
  let yearOfEra := marchYear % 400
  marchYear / 400 * 146097 + (365 * yearOfEra + yearOfEra / 4 - yearOfEra / 100) +
    ((153 * marchMonth + 2) / 5 + day - 1) - 719468

section Calendar

variable {dayOfEra yearOfEra : ℤ} (h₀ : 0 ≤ dayOfEra) (h₁ : dayOfEra < 146097)
  (hyear : yearOfEra = (dayOfEra - dayOfEra / 1460 + dayOfEra / 36524 - dayOfEra / 146096) / 365)

include h₀ h₁ hyear

theorem yearOfEra_bounds : 0 ≤ yearOfEra ∧ yearOfEra < 400 := by omega

/-- The day of the year that starts in March. -/
theorem dayOfYear_bounds :
    0 ≤ dayOfEra - (365 * yearOfEra + yearOfEra / 4 - yearOfEra / 100) ∧
      dayOfEra - (365 * yearOfEra + yearOfEra / 4 - yearOfEra / 100) ≤ 366 := by
  -- the days of each century are counted apart
  have hcentury : dayOfEra / 36524 = 0 ∨ dayOfEra / 36524 = 1 ∨ dayOfEra / 36524 = 2 ∨
      dayOfEra / 36524 = 3 ∨ dayOfEra / 36524 = 4 := by omega
  have hhundreds : dayOfEra / 36524 - dayOfEra / 146096 ≤ yearOfEra / 100 ∧
      yearOfEra / 100 ≤ dayOfEra / 36524 - dayOfEra / 146096 := by
    rcases hcentury with h | h | h | h | h <;> rw [h] at hyear ⊢ <;> omega
  have hleaps : yearOfEra / 4 ≤ dayOfEra / 1460 ∧ dayOfEra / 1460 ≤ yearOfEra / 4 + 1 := by
    rcases hcentury with h | h | h | h | h <;> rw [h] at hyear <;> omega
  omega

end Calendar

theorem dayNumber_civil (days : ℤ) : dayNumber (civil days) = days := by
  have hera : 0 ≤ (days + 719468) % 146097 ∧ (days + 719468) % 146097 < 146097 := by omega
  have hsplit : days = (days + 719468) / 146097 * 146097 + (days + 719468) % 146097 - 719468 := by
    omega
  simp only [civil]
  generalize (days + 719468) / 146097 = era at hsplit ⊢
  generalize (days + 719468) % 146097 = dayOfEra at hera hsplit ⊢
  generalize hyear : (dayOfEra - dayOfEra / 1460 + dayOfEra / 36524 - dayOfEra / 146096) / 365 =
    yearOfEra
  obtain ⟨hy₀, hy₁⟩ := yearOfEra_bounds hera.1 hera.2 hyear.symm
  obtain ⟨hd₀, hd₁⟩ := dayOfYear_bounds hera.1 hera.2 hyear.symm
  generalize hday : dayOfEra - (365 * yearOfEra + yearOfEra / 4 - yearOfEra / 100) = dayOfYear at *
  have hmonth : 0 ≤ (5 * dayOfYear + 2) / 153 ∧ (5 * dayOfYear + 2) / 153 ≤ 11 := by omega
  generalize (5 * dayOfYear + 2) / 153 = month at hmonth ⊢
  have hmod : (yearOfEra + era * 400) % 400 = yearOfEra := by omega
  have hdiv : (yearOfEra + era * 400) / 400 = era := by omega
  by_cases hlate : month < 10
  · have hmarch : ¬ month + 3 ≤ 2 := by omega
    simp only [hlate, if_true, dayNumber, hmarch, if_false, hmod, hdiv, add_sub_cancel_right]
    omega
  · have hjanuary : month - 9 ≤ 2 := by omega
    simp only [hlate, if_false, dayNumber, hjanuary, if_true, hmod, hdiv, add_sub_cancel_right,
      sub_add_cancel]
    omega

theorem civil_injective : Function.Injective civil :=
  Function.LeftInverse.injective dayNumber_civil

theorem civil_bounds (days : ℤ) :
    (0 ≤ (civil days).2.1 ∧ (civil days).2.1 < 100) ∧
      (0 ≤ (civil days).2.2 ∧ (civil days).2.2 < 100) := by
  have hera : 0 ≤ (days + 719468) % 146097 ∧ (days + 719468) % 146097 < 146097 := by omega
  simp only [civil]
  generalize (days + 719468) % 146097 = dayOfEra at hera ⊢
  generalize hyear : (dayOfEra - dayOfEra / 1460 + dayOfEra / 36524 - dayOfEra / 146096) / 365 =
    yearOfEra
  obtain ⟨hd₀, hd₁⟩ := dayOfYear_bounds hera.1 hera.2 hyear.symm
  generalize dayOfEra - (365 * yearOfEra + yearOfEra / 4 - yearOfEra / 100) = dayOfYear at *
  have hday : 0 ≤ dayOfYear - (153 * ((5 * dayOfYear + 2) / 153) + 2) / 5 + 1 ∧
      dayOfYear - (153 * ((5 * dayOfYear + 2) / 153) + 2) / 5 + 1 < 100 := by omega
  split_ifs with hlate
  · exact ⟨by dsimp only; omega, hday⟩
  · exact ⟨by dsimp only; omega, hday⟩

theorem padded_ne {c : Char} (hc : c.isDigit = false) {width n : ℕ} {rest : String} :
    padded width n ≠ String.singleton c ++ rest := by
  intro h
  have hmem : c ∈ (padded width n).toList := by
    rw [h]
    simp
  rw [padded_digits c hmem] at hc
  cases hc

theorem yearText_inj {y y' : ℤ} (h : yearText y = yearText y') : y = y' := by
  have hplus {width n : ℕ} {rest : String} : padded width n ≠ "+" ++ rest :=
    @padded_ne '+' (by decide) width n rest
  have hminus {width n : ℕ} {rest : String} : padded width n ≠ "-" ++ rest :=
    @padded_ne '-' (by decide) width n rest
  have hsigns : ∀ s s' : String, "+" ++ s ≠ "-" ++ s' := by
    intro s s' heq
    have hlist := congrArg String.toList heq
    simp at hlist
  unfold yearText at h
  split_ifs at h
  · have := padded_inj h
    omega
  · exact absurd h hplus
  · exact absurd h hminus
  · exact absurd h.symm hplus
  · have := padded_inj ((String.append_right_inj _).mp h)
    omega
  · exact absurd h (hsigns _ _)
  · exact absurd h.symm hminus
  · exact absurd h.symm (hsigns _ _)
  · have := padded_inj ((String.append_right_inj _).mp h)
    omega

/-- Two texts that end in parts of one length. -/
theorem append_inj_right {s s' part part' : String} (h : s ++ part = s' ++ part')
    (hlen : part.toList.length = part'.toList.length) : s = s' ∧ part = part' := by
  have hlist := congrArg String.toList h
  rw [String.toList_append, String.toList_append] at hlist
  obtain ⟨hs, hpart⟩ := List.append_inj' hlist hlen
  exact ⟨String.toList_inj.mp hs, String.toList_inj.mp hpart⟩

theorem padded_append_inj {s s' : String} {width m n : ℕ} (hw : 0 < width) (hm : m < 10 ^ width)
    (hn : n < 10 ^ width) (h : s ++ padded width m = s' ++ padded width n) : s = s' ∧ m = n := by
  obtain ⟨hs, hpart⟩ := append_inj_right h ((padded_length hw hm).trans (padded_length hw hn).symm)
  exact ⟨hs, padded_inj hpart⟩

theorem isoText_injective : Function.Injective isoText := by
  intro t t' h
  have hbounds := civil_bounds (t.1 / 86400000)
  have hbounds' := civil_bounds (t'.1 / 86400000)
  have hms : (t.1 % 86400000).toNat < 86400000 := by omega
  have hms' : (t'.1 % 86400000).toNat < 86400000 := by omega
  unfold isoText at h
  have hday : t.1 / 86400000 = t'.1 / 86400000 ↔
      civil (t.1 / 86400000) = civil (t'.1 / 86400000) := civil_injective.eq_iff.symm
  rcases hdate : civil (t.1 / 86400000) with ⟨year, month, day⟩
  rcases hdate' : civil (t'.1 / 86400000) with ⟨year', month', day'⟩
  simp only [hdate, hdate'] at h hbounds hbounds' hday
  -- the parts from the last one on
  replace h := (append_inj_right h rfl).1
  obtain ⟨h, hmilli⟩ := padded_append_inj (by omega) (by omega) (by omega) h
  replace h := (append_inj_right h rfl).1
  obtain ⟨h, hsecond⟩ := padded_append_inj (by omega) (by omega) (by omega) h
  replace h := (append_inj_right h rfl).1
  obtain ⟨h, hminute⟩ := padded_append_inj (by omega) (by omega) (by omega) h
  replace h := (append_inj_right h rfl).1
  obtain ⟨h, hhour⟩ := padded_append_inj (by omega) (by omega) (by omega) h
  replace h := (append_inj_right h rfl).1
  obtain ⟨h, hdays⟩ := padded_append_inj (by omega) (by omega) (by omega) h
  replace h := (append_inj_right h rfl).1
  obtain ⟨h, hmonth⟩ := padded_append_inj (by omega) (by omega) (by omega) h
  replace h := (append_inj_right h rfl).1
  have heq := hday.mpr (Prod.ext (yearText_inj h) (Prod.ext (by dsimp only; omega)
    (by dsimp only; omega)))
  have hrest : (t.1 % 86400000).toNat = (t'.1 % 86400000).toNat := by omega
  exact Subtype.ext (by omega)

end Wazir
