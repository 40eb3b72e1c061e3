import Wazir.Shared.Strings
import Mathlib

/-! `encodeURIComponent` can be undone, and leaves no separator in its text. -/

namespace Wazir

/-- What `encodeURIComponent` leaves as it is. -/
def unreserved (c : Char) : Bool := c.isAlphanum || c ∈ "-_.!~*'()".toList

def percentByte (b : UInt8) : List Char :=
  ['%', (b.toNat / 16).digitChar.toUpper, (b.toNat % 16).digitChar.toUpper]

def encodeURIChar (c : Char) : List Char :=
  if unreserved c then [c] else (String.utf8EncodeChar c).flatMap percentByte

def encodeURIComponent (s : String) : String := String.ofList (s.toList.flatMap encodeURIChar)

example : encodeURIComponent "a:b/é 100%" = "a%3Ab%2F%C3%A9%20100%25" := by decide

def hexValue (c : Char) : ℕ := if c.isDigit then c.toNat - 48 else c.toNat - 55

def percentDecode : List Char → List UInt8
  | '%' :: hi :: lo :: rest => UInt8.ofNat (16 * hexValue hi + hexValue lo) :: percentDecode rest
  | c :: rest => UInt8.ofNat c.toNat :: percentDecode rest
  | [] => []

theorem percentDecode_byte (b : UInt8) (rest : List Char) :
    percentDecode (percentByte b ++ rest) = b :: percentDecode rest := by
  have hhex : ∀ n < 16, hexValue n.digitChar.toUpper = n := by decide
  have hb := b.toNat_lt
  change UInt8.ofNat (16 * hexValue _ + hexValue _) :: percentDecode rest = _
  rw [hhex _ (by omega), hhex _ (by omega), Nat.div_add_mod, UInt8.ofNat_toNat]

theorem percentDecode_bytes (bytes : List UInt8) (rest : List Char) :
    percentDecode (bytes.flatMap percentByte ++ rest) = bytes ++ percentDecode rest := by
  induction bytes with
  | nil => rfl
  | cons b bytes ih =>
    rw [List.flatMap_cons, List.append_assoc, percentDecode_byte, ih, List.cons_append]

theorem unreserved_ascii {c : Char} (h : unreserved c = true) : c.toNat < 128 ∧ c ≠ '%' := by
  refine ⟨?_, by rintro rfl; exact absurd h (by decide)⟩
  have hmarks : ("-_.!~*'()".toList.all fun c => c.toNat < 128) = true := by decide
  have hupper : ('Z').val.toNat = 90 := rfl
  have hlower : ('z').val.toNat = 122 := rfl
  have hdigit : ('9').val.toNat = 57 := rfl
  have hval : c.toNat = c.val.toNat := rfl
  simp only [unreserved, Char.isAlphanum, Char.isAlpha, Char.isUpper, Char.isLower, Char.isDigit,
    Bool.or_eq_true, Bool.and_eq_true, decide_eq_true_eq, ge_iff_le, UInt32.le_iff_toNat_le] at h
  rcases h with ((h | h) | h) | h
  · omega
  · omega
  · omega
  · exact of_decide_eq_true (List.all_eq_true.mp hmarks c h)

theorem percentDecode_char {c : Char} (hc : c ≠ '%') (rest : List Char) :
    percentDecode (c :: rest) = UInt8.ofNat c.toNat :: percentDecode rest := by
  rw [percentDecode]
  rintro hi lo rest' rfl
  exact absurd rfl hc

theorem percentDecode_encode (cs : List Char) :
    percentDecode (cs.flatMap encodeURIChar) = cs.flatMap String.utf8EncodeChar := by
  induction cs with
  | nil => rfl
  | cons c rest ih =>
    rw [List.flatMap_cons, List.flatMap_cons, ← ih, encodeURIChar]
    split_ifs with hc
    · obtain ⟨hascii, hpercent⟩ := unreserved_ascii hc
      have hbyte : String.utf8EncodeChar c = [UInt8.ofNat c.toNat] := by
        have hle : c.val.toNat ≤ 127 := Nat.le_of_lt_succ hascii
        exact if_pos hle
      rw [hbyte]
      exact percentDecode_char hpercent _
    · exact percentDecode_bytes _ _

theorem encodeURIComponent_inj {s t : String} (h : encodeURIComponent s = encodeURIComponent t) :
    s = t := by
  have hchars := congrArg (fun s => percentDecode s.toList) h
  simp only [encodeURIComponent, String.toList_ofList, percentDecode_encode] at hchars
  rw [← String.ofList_toList (s := s), ← String.ofList_toList (s := t), ← String.toByteArray_inj,
    String.toByteArray_ofList, String.toByteArray_ofList, List.utf8Encode, List.utf8Encode, hchars]

theorem notMem_encodeURI {c : Char} (hc : unreserved c = false) (hpercent : c ≠ '%')
    (hhex : ∀ n < 16, n.digitChar.toUpper ≠ c) (cs : List Char) : c ∉ cs.flatMap encodeURIChar := by
  intro hmem
  obtain ⟨x, -, hx⟩ := List.mem_flatMap.mp hmem
  rw [encodeURIChar] at hx
  split_ifs at hx with hkept
  · rw [← List.mem_singleton.mp hx, hc] at hkept
    cases hkept
  · obtain ⟨b, -, hb⟩ := List.mem_flatMap.mp hx
    have hlt := b.toNat_lt
    simp only [percentByte, List.mem_cons, List.not_mem_nil, or_false] at hb
    rcases hb with hb | hb | hb
    · exact hpercent hb
    · exact hhex _ (by omega) hb.symm
    · exact hhex _ (by omega) hb.symm

end Wazir
