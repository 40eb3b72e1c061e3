import Wazir.Shared.NumberText
import Mathlib.Tactic.FieldSimp
import Mathlib.Tactic.Ring

/-! The number tokens of JSON, and that the text of a decimal reads as the decimal. -/

namespace Wazir

/-- The digits in front and what follows; there is at least one. -/
def readDigits (cs : List Char) : Option (List Char × List Char) :=
  if cs.takeWhile Char.isDigit = [] then none
  else some (cs.takeWhile Char.isDigit, cs.dropWhile Char.isDigit)

/-- The digits before the point: no `0` in front of others. -/
def readWhole (cs : List Char) : Option (List Char × List Char) := do
  let (digits, rest) ← readDigits cs
  if digits.head? = some '0' ∧ digits.length ≠ 1 then none else some (digits, rest)

def readFraction : List Char → Option (List Char × List Char)
  | '.' :: rest => readDigits rest
  | rest => some ([], rest)

def readSigned : List Char → Option (ℤ × List Char)
  | '-' :: rest => (readDigits rest).map fun r => (-(Nat.ofDigitChars 10 r.1 0 : ℤ), r.2)
  | '+' :: rest => (readDigits rest).map fun r => ((Nat.ofDigitChars 10 r.1 0 : ℤ), r.2)
  | rest => (readDigits rest).map fun r => ((Nat.ofDigitChars 10 r.1 0 : ℤ), r.2)

def readExponent : List Char → Option (ℤ × List Char)
  | 'e' :: rest => readSigned rest
  | 'E' :: rest => readSigned rest
  | rest => some (0, rest)

def decimalValue (whole fraction : List Char) (exponent : ℤ) : ℚ :=
  Nat.ofDigitChars 10 (whole ++ fraction) 0 * (10 : ℚ) ^ (exponent - fraction.length)

def readPositive (cs : List Char) : Option (ℚ × List Char) := do
  let (whole, rest) ← readWhole cs
  let (fraction, rest) ← readFraction rest
  let (exponent, rest) ← readExponent rest
  some (decimalValue whole fraction exponent, rest)

/-- A number token, as an exact value. -/
def readNumber : List Char → Option (ℚ × List Char)
  | '-' :: rest => (readPositive rest).map fun r => (-r.1, r.2)
  | cs => readPositive cs

/-! Reading back what was written. -/

/-- What may follow a number in the text of a value. -/
def Follows (rest : List Char) : Prop := ∀ c ∈ rest.head?, c = ',' ∨ c = ']' ∨ c = '\x7d'

def AllDigits (digits : List Char) : Prop := ∀ c ∈ digits, c.isDigit = true

theorem AllDigits.toDigits (n : ℕ) : AllDigits (Nat.toDigits 10 n) :=
  fun _ => Nat.isDigit_of_mem_toDigits (by omega) (by omega)

theorem AllDigits.append {a b : List Char} (ha : AllDigits a) (hb : AllDigits b) :
    AllDigits (a ++ b) := by
  intro c hc
  rcases List.mem_append.mp hc with h | h
  · exact ha c h
  · exact hb c h

theorem AllDigits.zeros (n : ℕ) : AllDigits (List.replicate n '0') := by
  intro c hc
  rw [List.eq_of_mem_replicate hc]
  decide

theorem AllDigits.zero : AllDigits ['0'] := AllDigits.zeros 1

theorem AllDigits.nil : AllDigits [] := AllDigits.zeros 0

theorem readDigits_append {digits rest : List Char} (hne : digits ≠ []) (hall : AllDigits digits)
    (hrest : ∀ c ∈ rest.head?, c.isDigit = false) :
    readDigits (digits ++ rest) = some (digits, rest) := by
  have hstop : rest.takeWhile Char.isDigit = [] ∧ rest.dropWhile Char.isDigit = rest := by
    cases rest with
    | nil => exact ⟨rfl, rfl⟩
    | cons c rest =>
      have hc : c.isDigit = false := hrest c rfl
      simp [hc]
  have htake : (digits ++ rest).takeWhile Char.isDigit = digits := by
    rw [List.takeWhile_append_of_pos hall, hstop.1, List.append_nil]
  have hdrop : (digits ++ rest).dropWhile Char.isDigit = rest := by
    rw [List.dropWhile_append_of_pos hall, hstop.2]
  rw [readDigits, htake, hdrop, if_neg hne]

/-- The text of an exponent: nothing, or `e`, a sign and digits. -/
inductive ExponentText : List Char → ℤ → Prop
  | none : ExponentText [] 0
  | plus {digits : List Char} (hne : digits ≠ []) (hall : AllDigits digits) :
    ExponentText ('e' :: '+' :: digits) (Nat.ofDigitChars 10 digits 0)
  | minus {digits : List Char} (hne : digits ≠ []) (hall : AllDigits digits) :
    ExponentText ('e' :: '-' :: digits) (-(Nat.ofDigitChars 10 digits 0))

theorem Follows.not_digit {rest : List Char} (h : Follows rest) :
    ∀ c ∈ rest.head?, c.isDigit = false := by
  intro c hc
  rcases h c hc with rfl | rfl | rfl <;> rfl

theorem ExponentText.read {text rest : List Char} {exponent : ℤ} (h : ExponentText text exponent)
    (hrest : Follows rest) : readExponent (text ++ rest) = some (exponent, rest) := by
  cases h with
  | none =>
    cases rest with
    | nil => rfl
    | cons c rest => rcases hrest c rfl with rfl | rfl | rfl <;> rfl
  | plus hne hall =>
    rw [List.cons_append, List.cons_append, readExponent, readSigned,
      readDigits_append hne hall hrest.not_digit]
    rfl
  | minus hne hall =>
    rw [List.cons_append, List.cons_append, readExponent, readSigned,
      readDigits_append hne hall hrest.not_digit]
    rfl

/-- What stands after the digits of the whole part or of the fraction. -/
theorem ExponentText.head {text rest : List Char} {exponent : ℤ} (h : ExponentText text exponent)
    (hrest : Follows rest) : ∀ c ∈ (text ++ rest).head?, c.isDigit = false ∧ c ≠ '.' := by
  intro c hc
  cases h with
  | none => rcases hrest c hc with rfl | rfl | rfl <;> decide
  | plus | minus =>
    cases hc
    decide

def numeral (whole fraction exponent : List Char) : List Char :=
  whole ++ ((if fraction = [] then [] else '.' :: fraction) ++ exponent)

theorem readPositive_numeral {whole fraction text rest : List Char} {exponent : ℤ}
    (hne : whole ≠ []) (hzero : whole.head? = some '0' → whole.length = 1)
    (hwhole : AllDigits whole) (hfraction : AllDigits fraction) (htext : ExponentText text exponent)
    (hrest : Follows rest) : readPositive (numeral whole fraction text ++ rest) =
      some (decimalValue whole fraction exponent, rest) := by
  have hread : ∀ tail : List Char, (∀ c ∈ tail.head?, c.isDigit = false) →
      readWhole (whole ++ tail) = some (whole, tail) := by
    intro tail htail
    rw [readWhole, readDigits_append hne hwhole htail]
    exact if_neg fun h => h.2 (hzero h.1)
  rw [numeral, List.append_assoc, List.append_assoc, readPositive]
  by_cases hempty : fraction = []
  · subst hempty
    have hdot : readFraction (text ++ rest) = some ([], text ++ rest) := by
      cases hcs : text ++ rest with
      | nil => rfl
      | cons c cs =>
        have hc := (htext.head hrest c (by rw [hcs]; rfl)).2
        rw [readFraction.eq_2]
        intro tail htail
        exact hc (List.cons.inj htail).1
    rw [if_pos rfl, List.nil_append, hread _ fun c hc => (htext.head hrest c hc).1]
    simp only [Option.bind_eq_bind, Option.bind_some]
    rw [hdot]
    simp only [Option.bind_some]
    rw [htext.read hrest]
    rfl
  · have hdot : readFraction ('.' :: fraction ++ (text ++ rest)) = some (fraction, text ++ rest) :=
      readDigits_append hempty hfraction fun c hc => (htext.head hrest c hc).1
    have hpoint : ∀ c ∈ ('.' :: fraction ++ (text ++ rest)).head?, c.isDigit = false := by
      intro c hc
      cases hc
      rfl
    rw [if_neg hempty, hread _ hpoint]
    simp only [Option.bind_eq_bind, Option.bind_some]
    rw [hdot]
    simp only [Option.bind_some]
    rw [htext.read hrest]
    rfl

/-! The digits of a positive decimal. -/

theorem ofDigitChars_lt {digits : List Char} (h : AllDigits digits) :
    Nat.ofDigitChars 10 digits 0 < 10 ^ digits.length := by
  induction digits with
  | nil => simp
  | cons c cs ih =>
    have hc : 48 ≤ c.toNat ∧ c.toNat ≤ 57 := Char.isDigit_iff_toNat.mp (h c List.mem_cons_self)
    have hlt := ih fun d hd => h d (List.mem_cons_of_mem _ hd)
    rw [Nat.ofDigitChars_cons, Nat.ofDigitChars_eq_ofDigitChars_zero, List.length_cons, pow_succ]
    have hdigit : 10 * 0 + (c.toNat - '0'.toNat) ≤ 9 := by
      have : '0'.toNat = 48 := rfl
      omega
    nlinarith

theorem head_toDigits {n : ℕ} (h : 0 < n) : (Nat.toDigits 10 n).head? ≠ some '0' := by
  intro hhead
  have hvalue := Nat.ofDigitChars_ten_toDigits (n := n)
  have hall := AllDigits.toDigits n
  have hshort := Nat.length_toDigits_le_iff (b := 10) (n := n)
    (k := (Nat.toDigits 10 n).length - 1) (by omega)
  cases hdigits : Nat.toDigits 10 n with
  | nil => exact Nat.toDigits_ne_nil hdigits
  | cons c cs =>
    rw [hdigits] at hhead hvalue hall hshort
    cases hhead
    have htail : Nat.ofDigitChars 10 cs 0 = n := hvalue
    have hlt := ofDigitChars_lt fun d hd => hall d (List.mem_cons_of_mem _ hd)
    rw [htail] at hlt
    have hpos : 0 < cs.length := by
      rcases Nat.eq_zero_or_pos cs.length with h0 | h0
      · rw [h0] at hlt
        omega
      · exact h0
    have := (hshort (by simpa using hpos)).mpr (by simpa using hlt)
    simp at this

/-- A decimal with less than 400 digits after the point. -/
def IsDecimal (q : ℚ) : Prop := ∃ places < 400, 10 ^ places % q.den = 0

variable {q : ℚ}

theorem decimalPlaces_spec (h : IsDecimal q) : 10 ^ decimalPlaces q % q.den = 0 := by
  obtain ⟨places, hlt, hplaces⟩ := h
  cases hfind : (List.range 400).find? fun e => 10 ^ e % q.den = 0 with
  | none => exact absurd hplaces (by simpa using List.find?_eq_none.mp hfind places (by simpa))
  | some e =>
    rw [decimalPlaces, hfind]
    simpa using List.find?_some hfind

/-- The digits of a positive decimal and how many of them stand before the point. -/
structure PositiveDigits (q : ℚ) (digits : List Char) (n : ℤ) : Prop where
  nonempty : digits ≠ []
  all : AllDigits digits
  head : digits.head? ≠ some '0'
  value : q = Nat.ofDigitChars 10 digits 0 * (10 : ℚ) ^ (n - digits.length)

def digitsOf (q : ℚ) : List Char :=
  significant (Nat.toDigits 10 (q.num.toNat * 10 ^ decimalPlaces q / q.den))

def pointOf (q : ℚ) : ℤ :=
  (Nat.toDigits 10 (q.num.toNat * 10 ^ decimalPlaces q / q.den)).length - decimalPlaces q

theorem scaled_value (hpos : 0 < q) (h : IsDecimal q) :
    ((q.num.toNat * 10 ^ decimalPlaces q / q.den : ℕ) : ℚ) = q * 10 ^ decimalPlaces q := by
  have hden : (q.den : ℚ) ≠ 0 := Nat.cast_ne_zero.mpr q.den_nz
  have hnum : ((q.num.toNat : ℕ) : ℚ) = q.num := by
    have hcast : ((q.num.toNat : ℕ) : ℤ) = q.num := Int.toNat_of_nonneg (Rat.num_pos.mpr hpos).le
    exact_mod_cast congrArg (Int.cast (R := ℚ)) hcast
  have hdvd : q.den ∣ q.num.toNat * 10 ^ decimalPlaces q :=
    (Nat.dvd_of_mod_eq_zero (decimalPlaces_spec h)).mul_left _
  rw [Nat.cast_div hdvd hden, Nat.cast_mul, hnum, Nat.cast_pow, mul_div_right_comm,
    Rat.num_div_den]
  norm_cast

theorem positiveDigits (hpos : 0 < q) (h : IsDecimal q) :
    PositiveDigits q (digitsOf q) (pointOf q) := by
  have hscaled := scaled_value hpos h
  rw [digitsOf, pointOf]
  generalize q.num.toNat * 10 ^ decimalPlaces q / q.den = N at hscaled ⊢
  generalize decimalPlaces q = places at hscaled ⊢
  have hN : 0 < N := by
    have : (0 : ℚ) < N := by
      rw [hscaled]
      positivity
    exact_mod_cast this
  have happend := significant_append (Nat.toDigits 10 N)
  have hlen := congrArg List.length happend
  have hvalue := congrArg (fun ds => Nat.ofDigitChars 10 ds 0) happend
  simp only [Nat.ofDigitChars_append, Nat.ofDigitChars_replicate_zero,
    Nat.ofDigitChars_ten_toDigits] at hvalue
  rw [List.length_append, List.length_replicate] at hlen
  have hne : significant (Nat.toDigits 10 N) ≠ [] := by
    intro hnil
    rw [hnil] at hvalue
    simp at hvalue
    omega
  refine ⟨hne, fun c hc => AllDigits.toDigits N c (mem_significant hc), ?_, ?_⟩
  · intro hhead
    exact head_toDigits hN (by rw [← happend, List.head?_append, hhead]; rfl)
  · have hten : (10 : ℚ) ≠ 0 := by norm_num
    have hN' : (N : ℚ) = 10 ^ ((Nat.toDigits 10 N).length -
        (significant (Nat.toDigits 10 N)).length) *
          (Nat.ofDigitChars 10 (significant (Nat.toDigits 10 N)) 0 : ℚ) := by
      exact_mod_cast hvalue.symm
    have hq : q = N * (10 : ℚ) ^ (-(places : ℤ)) := by
      rw [hscaled, mul_assoc, ← zpow_natCast, ← zpow_add₀ hten]
      simp
    have hle : (significant (Nat.toDigits 10 N)).length ≤ (Nat.toDigits 10 N).length := by omega
    rw [hq, hN', mul_comm (_ ^ _), mul_assoc, ← zpow_natCast, ← zpow_add₀ hten, Nat.cast_sub hle]
    congr 2
    ring

/-- `digits` written out with `n` of them before the point. -/
def placed (digits : List Char) (n : ℤ) : List Char :=
  let k := digits.length
  let exponent := (if 0 < n then ['+'] else ['-']) ++ Nat.toDigits 10 (n - 1).natAbs
  if k ≤ n ∧ n ≤ 21 then digits ++ List.replicate (n.toNat - k) '0'
  else if 0 < n ∧ n ≤ 21 then digits.take n.toNat ++ '.' :: digits.drop n.toNat
  else if -6 < n ∧ n ≤ 0 then '0' :: '.' :: (List.replicate (-n).toNat '0' ++ digits)
  else if k = 1 then digits ++ 'e' :: exponent
  else digits.take 1 ++ '.' :: (digits.drop 1 ++ 'e' :: exponent)

theorem positiveText_eq (q : ℚ) : positiveText q = placed (digitsOf q) (pointOf q) := rfl

theorem exponentText (n : ℤ) : ExponentText
    ('e' :: ((if 0 < n then ['+'] else ['-']) ++ Nat.toDigits 10 (n - 1).natAbs)) (n - 1) := by
  have hdigits : (Nat.ofDigitChars 10 (Nat.toDigits 10 (n - 1).natAbs) 0 : ℤ) = (n - 1).natAbs := by
    rw [Nat.ofDigitChars_ten_toDigits]
  by_cases hn : 0 < n
  · have hplus := ExponentText.plus Nat.toDigits_ne_nil (AllDigits.toDigits (n - 1).natAbs)
    rw [hdigits, Int.natAbs_of_nonneg (by omega)] at hplus
    rwa [if_pos hn]
  · have hminus := ExponentText.minus Nat.toDigits_ne_nil (AllDigits.toDigits (n - 1).natAbs)
    rw [hdigits, Int.ofNat_natAbs_of_nonpos (by omega), neg_neg] at hminus
    rwa [if_neg hn]

theorem numeral_of_fraction (whole text : List Char) {fraction : List Char} (h : fraction ≠ []) :
    whole ++ '.' :: (fraction ++ text) = numeral whole fraction text := by
  rw [numeral, if_neg h]
  rfl

theorem ofDigitChars_zeros_append (m : ℕ) (digits : List Char) :
    Nat.ofDigitChars 10 (List.replicate m '0' ++ digits) 0 = Nat.ofDigitChars 10 digits 0 := by
  rw [Nat.ofDigitChars_append, Nat.ofDigitChars_replicate_zero, Nat.mul_zero]

theorem PositiveDigits.read {digits rest : List Char} {n : ℤ} (h : PositiveDigits q digits n)
    (hrest : Follows rest) :
    readPositive (placed digits n ++ rest) = some (q, rest) := by
  obtain ⟨hne, hall, hhead, hvalue⟩ := h
  have hk : 0 < digits.length := List.length_pos_iff.mpr hne
  have htake : ∀ m, 0 < m → digits.take m ≠ [] ∧ (digits.take m).head? ≠ some '0' := by
    intro m hm
    refine ⟨by simp [hne, hm.ne'], ?_⟩
    rwa [List.head?_take, if_neg hm.ne']
  have hparts : ∀ m, AllDigits (digits.take m) ∧ AllDigits (digits.drop m) :=
    fun m => ⟨fun c hc => hall c (List.mem_of_mem_take hc),
      fun c hc => hall c (List.mem_of_mem_drop hc)⟩
  have hexponent := exponentText n
  rw [hvalue]
  simp only [placed]
  generalize (if 0 < n then ['+'] else ['-']) ++ Nat.toDigits 10 (n - 1).natAbs = exponent
    at hexponent ⊢
  split_ifs with hint hpoint hsmall hone
  · -- a whole number
    obtain ⟨hle, -⟩ := hint
    have hdigits := hall.append (AllDigits.zeros (n.toNat - digits.length))
    have hlead : (digits ++ List.replicate (n.toNat - digits.length) '0').head? ≠ some '0' := by
      rwa [List.head?_append_of_ne_nil _ hne]
    have hform : digits ++ List.replicate (n.toNat - digits.length) '0' =
        numeral (digits ++ List.replicate (n.toNat - digits.length) '0') [] [] := by
      simp [numeral]
    rw [hform, readPositive_numeral (by simp [hne]) (fun h0 => absurd h0 hlead) hdigits
      AllDigits.nil ExponentText.none hrest]
    have hpow : n - digits.length = ((n.toNat - digits.length : ℕ) : ℤ) := by omega
    rw [decimalValue, List.append_nil, Nat.ofDigitChars_append, Nat.ofDigitChars_replicate_zero,
      hpow, zpow_natCast]
    push_cast
    simp [mul_comm]
  · -- a point between the digits
    have hdrop : digits.drop n.toNat ≠ [] := by
      rw [ne_eq, List.drop_eq_nil_iff]
      omega
    have hform := numeral_of_fraction (digits.take n.toNat) [] hdrop
    rw [List.append_nil] at hform
    rw [hform, readPositive_numeral (htake _ (by omega)).1
      (fun h0 => absurd h0 (htake _ (by omega)).2) (hparts _).1 (hparts _).2 ExponentText.none hrest]
    have hpow : n - digits.length = 0 - ((digits.drop n.toNat).length : ℤ) := by
      rw [List.length_drop]
      omega
    rw [decimalValue, List.take_append_drop, hpow]
  · -- zeros after the point
    have hdigits := (AllDigits.zeros (-n).toNat).append hall
    have htail : List.replicate (-n).toNat '0' ++ digits ≠ [] := by simp [hne]
    have hform := numeral_of_fraction ['0'] [] htail
    rw [List.append_nil] at hform
    rw [show '0' :: '.' :: (List.replicate (-n).toNat '0' ++ digits) = _ from hform,
      readPositive_numeral (by simp) (fun _ => rfl) AllDigits.zero hdigits ExponentText.none
        hrest]
    have hpow : n - digits.length =
        0 - ((List.replicate (-n).toNat '0' ++ digits).length : ℤ) := by
      rw [List.length_append, List.length_replicate]
      omega
    have hdecimal : Nat.ofDigitChars 10 (['0'] ++ (List.replicate (-n).toNat '0' ++ digits)) 0 =
        Nat.ofDigitChars 10 digits 0 := by
      rw [show ['0'] = List.replicate 1 '0' from rfl, ofDigitChars_zeros_append,
        ofDigitChars_zeros_append]
    rw [decimalValue, hdecimal, hpow]
  · -- one digit and an exponent
    have hform : digits ++ 'e' :: exponent = numeral digits [] ('e' :: exponent) := by
      simp [numeral]
    rw [hform, readPositive_numeral hne (fun _ => hone) hall AllDigits.nil hexponent hrest,
      decimalValue, List.append_nil, hone]
    simp
  · -- a point after the first digit and an exponent
    have hdrop : digits.drop 1 ≠ [] := by
      rw [ne_eq, List.drop_eq_nil_iff]
      omega
    rw [numeral_of_fraction _ _ hdrop, readPositive_numeral (htake 1 (by omega)).1
      (fun h0 => absurd h0 (htake 1 (by omega)).2) (hparts 1).1 (hparts 1).2 hexponent hrest]
    have hpow : n - digits.length = n - 1 - ((digits.drop 1).length : ℤ) := by
      rw [List.length_drop]
      omega
    rw [decimalValue, List.take_append_drop, hpow]

/-- The text of a decimal reads as the decimal. -/
theorem readNumber_numberText {rest : List Char} (h : IsDecimal q) (hrest : Follows rest) :
    readNumber (numberText (.finite q) ++ rest) = some (q, rest) := by
  have hpositive : ∀ p : ℚ, 0 < p → IsDecimal p →
      readPositive (positiveText p ++ rest) = some (p, rest) := by
    intro p hp hdecimal
    rw [positiveText_eq]
    exact (positiveDigits hp hdecimal).read hrest
  rcases lt_trichotomy q 0 with hneg | rfl | hpos
  · have hminus : IsDecimal (-q) := by
      obtain ⟨places, hlt, hplaces⟩ := h
      exact ⟨places, hlt, by rwa [Rat.neg_den]⟩
    rw [numberText, if_neg hneg.ne, if_pos hneg, List.cons_append, readNumber,
      hpositive (-q) (by linarith) hminus]
    simp
  · have hform : (['0'] : List Char) = numeral ['0'] [] [] := rfl
    rw [numberText, if_pos rfl, List.singleton_append, readNumber.eq_2 _ (by simp),
      ← List.singleton_append, hform, readPositive_numeral (by simp) (fun _ => rfl)
        AllDigits.zero AllDigits.nil ExponentText.none hrest]
    have hdigits : Nat.ofDigitChars 10 ['0'] 0 = 0 := rfl
    simp [decimalValue, hdigits]
  · have hdash : ∀ tail, positiveText q ++ rest ≠ '-' :: tail := by
      intro tail htail
      have := hpositive q hpos h
      rw [htail] at this
      cases this
    rw [numberText, if_neg hpos.ne', if_neg hpos.not_gt, readNumber.eq_2 _ hdash, hpositive q hpos h]

end Wazir
