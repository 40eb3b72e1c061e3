import Wazir.Shared.Strings
import Mathlib.Data.List.TakeWhile
import Mathlib.Tactic

/-! Dates: instants in milliseconds, their ISO-8601 text, and which strings look like one. -/

namespace Wazir

/-- The range of `Date`, in milliseconds around the epoch. -/
def maxTimeMs : ℤ := 8640000000000000

/-- A valid `Date`, and the ISO string that `toISOString` and `Date.parse` exchange it for. -/
abbrev Timestamp := {t : ℤ // -maxTimeMs ≤ t ∧ t ≤ maxTimeMs}

theorem epoch_valid : -maxTimeMs ≤ 0 ∧ 0 ≤ maxTimeMs := by decide

/-- A `Date` object; `none` is the invalid date. -/
abbrev JsDate := Option Timestamp

namespace JsDate

def ofMs (t : ℤ) : JsDate :=
  if h : -maxTimeMs ≤ t ∧ t ≤ maxTimeMs then some ⟨t, h⟩ else none

def addMs (now : JsDate) (ms : ℤ) : JsDate := now.bind fun t => ofMs (t.1 + ms)

/-- `Date.parse(t) <= now.getTime()`, false for the invalid date. -/
def reached (t : Timestamp) (now : JsDate) : Bool :=
  match now with
  | some n => t.1 ≤ n.1
  | none => false

end JsDate

/-- Year, month and day of the month, so many days after 1970-01-01. -/
def civil (days : ℤ) : ℤ × ℤ × ℤ :=
  let shifted := days + 719468
  let era := shifted / 146097
  let dayOfEra := shifted % 146097
  let yearOfEra := (dayOfEra - dayOfEra / 1460 + dayOfEra / 36524 - dayOfEra / 146096) / 365
  let dayOfYear := dayOfEra - (365 * yearOfEra + yearOfEra / 4 - yearOfEra / 100)
  -- months count from March here, so that a leap day comes last
  let month := (5 * dayOfYear + 2) / 153
  let year := yearOfEra + era * 400
  let day := dayOfYear - (153 * month + 2) / 5 + 1
  if month < 10 then (year, month + 3, day) else (year + 1, month - 9, day)

def yearText (year : ℤ) : String :=
  if 0 ≤ year ∧ year ≤ 9999 then padded 4 year.toNat
  else if 0 ≤ year then "+" ++ padded 6 year.toNat
  else "-" ++ padded 6 (-year).toNat

/-- The text that `toISOString` gives. -/
def isoText (t : Timestamp) : String :=
  let (year, month, day) := civil (t.1 / 86400000)
  let ms := (t.1 % 86400000).toNat
  yearText year ++ "-" ++ padded 2 month.toNat ++ "-" ++ padded 2 day.toNat ++ "T" ++
    padded 2 (ms / 3600000) ++ ":" ++ padded 2 (ms / 60000 % 60) ++ ":" ++
    padded 2 (ms / 1000 % 60) ++ "." ++ padded 3 (ms % 1000) ++ "Z"

example : (JsDate.ofMs 951827696789).map isoText = some "2000-02-29T12:34:56.789Z" := by
  decide

/-- Strip what matches a pattern in which `d` stands for a digit. -/
def dropPattern : List Char → List Char → Option (List Char)
  | [], cs => some cs
  | _ :: _, [] => none
  | p :: ps, c :: cs =>
    if (if p = 'd' then c.isDigit else c = p) then dropPattern ps cs else none

/-- `(\.\d+)?` -/
def dropFraction : List Char → List Char
  | '.' :: c :: cs => if c.isDigit then cs.dropWhile Char.isDigit else '.' :: c :: cs
  | cs => cs

/-- `(Z|[+-]\d{2}:\d{2})$` -/
def isZone : List Char → Bool
  | ['Z'] => true
  | '+' :: cs => dropPattern "dd:dd".toList cs = some []
  | '-' :: cs => dropPattern "dd:dd".toList cs = some []
  | _ => false

def isIsoDateString (value : String) : Bool :=
  let cs := value.toList
  20 ≤ cs.length && cs.length ≤ 35 &&
    (dropPattern "dddd-dd-ddTdd:dd:dd".toList cs).any fun rest => isZone (dropFraction rest)

theorem notIso_long {s : String} (h : 35 < s.length) : isIsoDateString s = false := by
  have hlen : ¬ s.toList.length ≤ 35 := by
    rw [String.length_toList]
    omega
  simp [isIsoDateString, hlen]

/-- What a pattern asks for literally is in the text. -/
theorem mem_of_dropPattern {c : Char} (hc : c ≠ 'd') {pattern cs rest : List Char}
    (h : dropPattern pattern cs = some rest) (hmem : c ∈ pattern) : c ∈ cs := by
  induction pattern generalizing cs with
  | nil => cases hmem
  | cons p ps ih =>
    cases cs with
    | nil => cases h
    | cons x xs =>
      simp only [dropPattern] at h
      rcases List.mem_cons.mp hmem with rfl | hps
      · rw [if_neg hc] at h
        split_ifs at h with hx
        rw [of_decide_eq_true hx]
        exact List.mem_cons_self
      · split_ifs at h
        all_goals exact List.mem_cons_of_mem _ (ih h hps)

theorem dash_of_iso {s : String} (h : isIsoDateString s = true) : '-' ∈ s.toList := by
  simp only [isIsoDateString, Bool.and_eq_true, Option.any_eq_true] at h
  obtain ⟨-, rest, hrest, -⟩ := h
  exact mem_of_dropPattern (by decide) hrest (by decide)

theorem dropPattern_digits {ds : List Char} (h : ∀ c ∈ ds, c.isDigit = true)
    (ps cs : List Char) :
    dropPattern (List.replicate ds.length 'd' ++ ps) (ds ++ cs) = dropPattern ps cs := by
  induction ds with
  | nil => rfl
  | cons d ds ih =>
    rw [List.forall_mem_cons] at h
    simp only [List.length_cons, List.replicate_succ, List.cons_append, dropPattern, if_true, h.1]
    exact ih h.2

theorem dropPattern_padded {width n : ℕ} (hw : 0 < width) (h : n < 10 ^ width)
    (ps cs : List Char) :
    dropPattern (List.replicate width 'd' ++ ps) ((padded width n).toList ++ cs) =
      dropPattern ps cs := by
  have hdigits := dropPattern_digits (@padded_digits width n) ps cs
  rwa [padded_length hw h] at hdigits

theorem dropPattern_literal {c : Char} (hc : c ≠ 'd') (ps cs : List Char) :
    dropPattern (c :: ps) (c :: cs) = dropPattern ps cs := by
  simp [dropPattern, hc]

theorem dropFraction_three {ds : List Char} (hlen : ds.length = 3)
    (hdigit : ∀ c ∈ ds, c.isDigit = true) : dropFraction ('.' :: (ds ++ ['Z'])) = ['Z'] := by
  obtain ⟨a, b, c, rfl⟩ := List.length_eq_three.mp hlen
  simp only [List.forall_mem_cons] at hdigit
  obtain ⟨ha, hb, hc, -⟩ := hdigit
  have hz : ('Z').isDigit = false := by decide
  simp [dropFraction, ha, hb, hc, hz]

/-- Month and day have at most two digits. -/
theorem civil_small (days : ℤ) :
    (civil days).2.1.toNat < 10 ^ 2 ∧ (civil days).2.2.toNat < 10 ^ 2 := by
  have hera : 0 ≤ (days + 719468) % 146097 ∧ (days + 719468) % 146097 < 146097 := by omega
  simp only [civil]
  generalize (days + 719468) % 146097 = dayOfEra at hera ⊢
  generalize hyear : (dayOfEra - dayOfEra / 1460 + dayOfEra / 36524 - dayOfEra / 146096) / 365 =
    yearOfEra
  have hdays : dayOfEra - (365 * yearOfEra + yearOfEra / 4 - yearOfEra / 100) < 1000 := by omega
  generalize dayOfEra - (365 * yearOfEra + yearOfEra / 4 - yearOfEra / 100) = dayOfYear at hdays
  have hday : (dayOfYear - (153 * ((5 * dayOfYear + 2) / 153) + 2) / 5 + 1).toNat < 10 ^ 2 := by
    omega
  by_cases hmonth : (5 * dayOfYear + 2) / 153 < 10
  · simp only [hmonth, if_true]
    exact ⟨by omega, hday⟩
  · simp only [hmonth, if_false]
    exact ⟨by omega, hday⟩

/-- What a clock shows in the years that have four digits looks like a date. -/
theorem isIso_isoText {t : Timestamp} (h₀ : 0 ≤ (civil (t.1 / 86400000)).1)
    (h₁ : (civil (t.1 / 86400000)).1 ≤ 9999) : isIsoDateString (isoText t) = true := by
  obtain ⟨hmonth, hday⟩ := civil_small (t.1 / 86400000)
  have hms : (t.1 % 86400000).toNat < 86400000 := by omega
  unfold isoText
  generalize civil (t.1 / 86400000) = date at *
  obtain ⟨year, month, day⟩ := date
  generalize (t.1 % 86400000).toNat = ms at hms
  have hyear : year.toNat < 10 ^ 4 := by simp only at h₁; omega
  have hhour : ms / 3600000 < 10 ^ 2 := by omega
  have hminute : ms / 60000 % 60 < 10 ^ 2 := by omega
  have hsecond : ms / 1000 % 60 < 10 ^ 2 := by omega
  have hmilli : ms % 1000 < 10 ^ 3 := by omega
  have hyearText : yearText year = padded 4 year.toNat := if_pos ⟨h₀, h₁⟩
  have hpattern : "dddd-dd-ddTdd:dd:dd".toList = List.replicate 4 'd' ++ '-' ::
      (List.replicate 2 'd' ++ '-' :: (List.replicate 2 'd' ++ 'T' :: (List.replicate 2 'd' ++ ':' ::
        (List.replicate 2 'd' ++ ':' :: (List.replicate 2 'd' ++ []))))) := rfl
  have htext : (yearText year ++ "-" ++ padded 2 month.toNat ++ "-" ++ padded 2 day.toNat ++ "T" ++
      padded 2 (ms / 3600000) ++ ":" ++ padded 2 (ms / 60000 % 60) ++ ":" ++
      padded 2 (ms / 1000 % 60) ++ "." ++ padded 3 (ms % 1000) ++ "Z").toList =
      (padded 4 year.toNat).toList ++ '-' :: ((padded 2 month.toNat).toList ++ '-' ::
        ((padded 2 day.toNat).toList ++ 'T' :: ((padded 2 (ms / 3600000)).toList ++ ':' ::
          ((padded 2 (ms / 60000 % 60)).toList ++ ':' :: ((padded 2 (ms / 1000 % 60)).toList ++
            '.' :: ((padded 3 (ms % 1000)).toList ++ ['Z'])))))) := by
    simp [hyearText]
  have hlength := congrArg List.length htext
  simp only [List.length_append, List.length_cons, List.length_nil,
    padded_length (by omega : 0 < 4) hyear, padded_length (by omega : 0 < 2) hmonth,
    padded_length (by omega : 0 < 2) hday, padded_length (by omega : 0 < 2) hhour,
    padded_length (by omega : 0 < 2) hminute, padded_length (by omega : 0 < 2) hsecond,
    padded_length (by omega : 0 < 3) hmilli] at hlength
  simp only [isIsoDateString, hlength, Bool.and_eq_true, decide_eq_true_eq]
  refine ⟨by omega, ?_⟩
  rw [htext, hpattern, dropPattern_padded (by omega) hyear, dropPattern_literal (by decide),
    dropPattern_padded (by omega) hmonth, dropPattern_literal (by decide),
    dropPattern_padded (by omega) hday, dropPattern_literal (by decide),
    dropPattern_padded (by omega) hhour, dropPattern_literal (by decide),
    dropPattern_padded (by omega) hminute, dropPattern_literal (by decide),
    dropPattern_padded (by omega) hsecond, dropPattern, Option.any_some]
  rw [dropFraction_three (padded_length (by omega) hmilli) padded_digits]
  rfl

end Wazir
