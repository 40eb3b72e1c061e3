import Wazir.Shared.JsonParse

/-! The JSON text of a value reads as the value. -/

namespace Wazir

/-! Strings. -/

theorem charUnits_small {c : Char} (h : c.toNat < 0x10000) : charUnits c = [c.toNat] :=
  if_pos h

theorem hexDigit_digitChar : ∀ d < 16, hexDigit d.digitChar = some d := by decide

theorem readUnits_escape {e : Char} {unit : ℕ} (tail : List Char)
    (hescaped : escapedUnit e = some unit) (hu : e ≠ 'u') : readUnits ('\\' :: e :: tail) =
      (readUnits tail).map fun r => (unit :: r.1, r.2) := by
  have hnot : ∀ a b c d rest, e = 'u' → tail = a :: b :: c :: d :: rest → False :=
    fun _ _ _ _ _ heq => absurd heq hu
  rw [readUnits.eq_4 e tail hnot, hescaped]
  cases readUnits tail <;> rfl

theorem readUnits_control {n : ℕ} (tail : List Char) (h : n < 256) :
    readUnits ('\\' :: 'u' :: '0' :: '0' :: (n / 16).digitChar :: (n % 16).digitChar :: tail) =
      (readUnits tail).map fun r => (n :: r.1, r.2) := by
  have hzero : hexDigit '0' = some 0 := by decide
  have hunit : 0 * 4096 + 0 * 256 + n / 16 * 16 + n % 16 = n := by omega
  rw [readUnits.eq_3, hzero, hexDigit_digitChar (n / 16) (by omega),
    hexDigit_digitChar (n % 16) (by omega)]
  simp only [Option.bind_eq_bind, Option.bind_some]
  rw [hunit]
  cases readUnits tail <;> rfl

theorem readUnits_escapeChar (c : Char) (tail : List Char) :
    readUnits (escapeChar c ++ tail) =
      (readUnits tail).map fun r => (charUnits c ++ r.1, r.2) := by
  have hsmall : c.toNat < 128 → charUnits c = [c.toNat] := fun h => charUnits_small (by omega)
  rw [escapeChar]
  split_ifs with hquote hslash h8 h12 hn hr ht hcontrol
  · subst hquote
    exact readUnits_escape tail rfl (by decide)
  · subst hslash
    exact readUnits_escape tail rfl (by decide)
  · rw [hsmall (by omega), h8]
    exact readUnits_escape tail rfl (by decide)
  · rw [hsmall (by omega), h12]
    exact readUnits_escape tail rfl (by decide)
  · subst hn
    exact readUnits_escape tail rfl (by decide)
  · subst hr
    exact readUnits_escape tail rfl (by decide)
  · subst ht
    exact readUnits_escape tail rfl (by decide)
  · rw [hsmall (by omega)]
    exact readUnits_control tail (by omega)
  · rw [List.singleton_append, readUnits.eq_5 c tail hquote (fun _ _ _ _ _ h => absurd h hslash)
      (fun _ _ h => absurd h hslash), if_neg (by simp [hcontrol, hslash])]

theorem readUnits_quoted (cs rest : List Char) :
    readUnits (cs.flatMap escapeChar ++ '"' :: rest) = some (cs.flatMap charUnits, rest) := by
  induction cs with
  | nil => rfl
  | cons c cs ih =>
    rw [List.flatMap_cons, List.append_assoc, readUnits_escapeChar, ih]
    rfl

theorem ofUnits_charUnits (c : Char) (units : List ℕ) :
    ofUnits (charUnits c ++ units) = c :: ofUnits units := by
  have hvalid : c.toNat < 0xD800 ∨ 0xDFFF < c.toNat ∧ c.toNat < 0x110000 := c.valid
  rw [charUnits]
  split_ifs with hsmall
  · have hc : (if 0xD800 ≤ c.toNat ∧ c.toNat ≤ 0xDFFF then '\uFFFD' else Char.ofNat c.toNat) = c := by
      rw [if_neg (by omega), Char.ofNat_toNat]
    cases units with
    | nil => exact congrArg (· :: []) hc
    | cons low rest => rw [List.singleton_append, ofUnits, if_neg (by omega), hc]
  · have hpoint : 0x10000 + (0xD800 + (c.toNat - 0x10000) / 0x400 - 0xD800) * 0x400 +
        (0xDC00 + (c.toNat - 0x10000) % 0x400 - 0xDC00) = c.toNat := by omega
    rw [List.cons_append, List.singleton_append, ofUnits, if_pos (by omega), hpoint,
      Char.ofNat_toNat]

theorem ofUnits_flatMap (cs : List Char) : ofUnits (cs.flatMap charUnits) = cs := by
  induction cs with
  | nil => rfl
  | cons c cs ih => rw [List.flatMap_cons, ofUnits_charUnits, ih]

/-- The body of a string's text reads as the string. -/
theorem read_quoted (s : String) (rest : List Char) : ∃ units,
    readUnits (s.toList.flatMap escapeChar ++ '"' :: rest) = some (units, rest) ∧
      String.ofList (ofUnits units) = s :=
  ⟨_, readUnits_quoted _ _, by rw [ofUnits_flatMap, String.ofList_toList]⟩

/-! Values. -/

theorem readNumber_head {cs : List Char} {r : ℚ × List Char} (h : readNumber cs = some r) :
    ∃ c tail, cs = c :: tail ∧ (c = '-' ∨ c.isDigit = true) := by
  cases cs with
  | nil => cases h
  | cons c tail =>
    refine ⟨c, tail, rfl, ?_⟩
    by_contra hc
    have hdigits : readDigits (c :: tail) = none := by
      simp only [not_or] at hc
      simp [readDigits, hc.2]
    have hdash : ∀ rest, c :: tail = '-' :: rest → False :=
      fun rest heq => hc (.inl (List.cons.inj heq).1)
    rw [readNumber.eq_2 _ hdash, readPositive, readWhole, hdigits] at h
    cases h

/-- The values that a text can stand for: no undefined and no date, and the members of an object
in the order that the engine keeps them. -/
inductive Readable (nearest : ℚ → JsNumber) : JsValue → Prop
  | null : Readable nearest .null
  | bool (b : Bool) : Readable nearest (.bool b)
  | num {q : ℚ} (hdecimal : IsDecimal q) (hnearest : nearest q = .finite q) :
    Readable nearest (.num (.finite q))
  | str (s : String) : Readable nearest (.str s)
  | arr {items : List JsValue} (hitems : ∀ v ∈ items, Readable nearest v) :
    Readable nearest (.arr items)
  | obj {fields : List (String × JsValue)} (hnodup : (fields.map Prod.fst).Nodup)
    (horder : ownOrder fields = fields) (hfields : ∀ kv ∈ fields, Readable nearest kv.2) :
    Readable nearest (.obj fields)

theorem skipSpace_cons {c : Char} (cs : List Char) (h : isJsonSpace c = false) :
    skipSpace (c :: cs) = c :: cs :=
  List.dropWhile_cons_of_neg (by simp [h])

variable {v : JsValue}

section Values

variable {nearest : ℚ → JsNumber}

theorem Readable.defined (h : Readable nearest v) : v.isUndefined = false := by
  cases h <;> rfl

theorem numberText_head {q : ℚ} (h : IsDecimal q) :
    ∃ c cs, numberText (.finite q) = c :: cs ∧ (c = '-' ∨ c.isDigit = true) := by
  have hread := readNumber_numberText h (show Follows [] by simp [Follows])
  obtain ⟨c, cs, htext, hc⟩ := readNumber_head hread
  exact ⟨c, cs, by rwa [List.append_nil] at htext, hc⟩

theorem number_start {c : Char} (h : c = '-' ∨ c.isDigit = true) :
    isJsonSpace c = false ∧ c ≠ ']' ∧ c ≠ 'n' ∧ c ≠ 't' ∧ c ≠ 'f' ∧ c ≠ '"' ∧ c ≠ '[' ∧
      c ≠ '\x7b' := by
  have hrange : c.toNat = 45 ∨ 48 ≤ c.toNat ∧ c.toNat ≤ 57 := by
    rcases h with rfl | h
    · exact .inl rfl
    · exact .inr (Char.isDigit_iff_toNat.mp h)
  have hne : ∀ d : Char, (d.toNat < 45 ∨ 57 < d.toNat) → c ≠ d := by
    rintro d hd rfl
    omega
  refine ⟨?_, hne _ (by decide), hne _ (by decide), hne _ (by decide), hne _ (by decide),
    hne _ (by decide), hne _ (by decide), hne _ (by decide)⟩
  simp [isJsonSpace, hne ' ' (by decide), hne '\t' (by decide), hne '\n' (by decide),
    hne '\r' (by decide)]

theorem Readable.start (h : Readable nearest v) :
    ∃ c cs, v.jsonText = c :: cs ∧ isJsonSpace c = false ∧ c ≠ ']' := by
  cases h with
  | null => exact ⟨_, _, rfl, rfl, by decide⟩
  | bool b => cases b <;> exact ⟨_, _, rfl, rfl, by decide⟩
  | num hdecimal _ =>
    obtain ⟨c, cs, htext, hc⟩ := numberText_head hdecimal
    exact ⟨c, cs, htext, (number_start hc).1, (number_start hc).2.1⟩
  | str s => exact ⟨_, _, rfl, rfl, by decide⟩
  | arr _ | obj _ _ _ => exact ⟨_, _, by rw [JsValue.jsonText], rfl, by decide⟩

/-- The text of a value reads as the value, whatever may follow it. -/
def Reads (nearest : ℚ → JsNumber) (v : JsValue) : Prop :=
  ∀ fuel rest, 2 * v.jsonText.length + 1 ≤ fuel → Follows rest →
    readValue nearest fuel (v.jsonText ++ rest) = some (v, rest)

theorem jsonItems_eq (items : List JsValue) : JsValue.jsonItems items = items.map JsValue.jsonText := by
  induction items with
  | nil => rfl
  | cons v rest ih => rw [JsValue.jsonItems, ih, List.map_cons]

theorem jsonFields_eq {fields : List (String × JsValue)}
    (h : ∀ kv ∈ fields, kv.2.isUndefined = false) :
    JsValue.jsonFields fields = fields.map fun kv => quoted kv.1 ++ ':' :: kv.2.jsonText := by
  induction fields with
  | nil => rfl
  | cons kv rest ih =>
    obtain ⟨hkv, hrest⟩ := List.forall_mem_cons.mp h
    rw [JsValue.jsonFields, if_neg (by simp [hkv]), ih hrest, List.map_cons]

theorem follows_comma (rest : List Char) : Follows (',' :: rest) := by
  intro c hc
  cases hc
  exact .inl rfl

theorem follows_bracket (rest : List Char) : Follows (']' :: rest) := by
  intro c hc
  cases hc
  exact .inr (.inl rfl)

theorem follows_brace (rest : List Char) : Follows ('\x7d' :: rest) := by
  intro c hc
  cases hc
  exact .inr (.inr rfl)

theorem commaJoin_start (piece : List Char) (pieces : List (List Char)) :
    ∃ tail, commaJoin (piece :: pieces) = piece ++ tail := by
  cases pieces with
  | nil => exact ⟨[], (List.append_nil piece).symm⟩
  | cons next rest => exact ⟨_, rfl⟩

theorem readItems_text {items : List JsValue} (hne : items ≠ []) (h : ∀ v ∈ items, Reads nearest v)
    (fuel : ℕ) (hfuel : 2 * (commaJoin (items.map JsValue.jsonText)).length + 2 ≤ fuel)
    (rest : List Char) :
    readItems nearest fuel (commaJoin (items.map JsValue.jsonText) ++ ']' :: rest) =
      some (items, rest) := by
  induction items generalizing fuel with
  | nil => exact absurd rfl hne
  | cons v items ih =>
    obtain ⟨hv, hitems⟩ := List.forall_mem_cons.mp h
    obtain ⟨fuel, rfl⟩ : ∃ k, fuel = k + 1 := ⟨fuel - 1, by omega⟩
    cases items with
    | nil =>
      rw [List.map_singleton, commaJoin] at *
      rw [readItems, hv fuel _ (by omega) (follows_bracket rest)]
      simp only [Option.bind_eq_bind, Option.bind_some]
      rw [skipSpace_cons rest rfl]
      rfl
    | cons next items =>
      rw [List.map_cons, List.map_cons, commaJoin, ← List.map_cons] at *
      simp only [List.length_append, List.length_cons] at hfuel
      rw [List.append_assoc, List.cons_append, readItems,
        hv fuel _ (by omega) (follows_comma _)]
      simp only [Option.bind_eq_bind, Option.bind_some]
      rw [skipSpace_cons _ rfl]
      simp only []
      rw [ih (by simp) hitems fuel (by omega)]
      rfl

/-- The text of a member. -/
def memberText (kv : String × JsValue) : List Char := quoted kv.1 ++ ':' :: kv.2.jsonText

/-- What follows a member: another one, or the end of the object. -/
def afterMember (nearest : ℚ → JsNumber) (fuel : ℕ) (kv : String × JsValue) (tail : List Char) :
    Option (List (String × JsValue) × List Char) :=
  match skipSpace tail with
  | ',' :: rest => (readMembers nearest fuel rest).map fun r => (kv :: r.1, r.2)
  | '\x7d' :: rest => some ([kv], rest)
  | _ => none

theorem readMembers_text {fields : List (String × JsValue)} (hne : fields ≠ [])
    (h : ∀ kv ∈ fields, Reads nearest kv.2) (fuel : ℕ)
    (hfuel : 2 * (commaJoin (fields.map memberText)).length + 2 ≤ fuel) (rest : List Char) :
    readMembers nearest fuel (commaJoin (fields.map memberText) ++ '\x7d' :: rest) =
      some (fields, rest) := by
  -- the key and the colon, then the value
  have hmember : ∀ kv tail fuel, Reads nearest kv.2 → 2 * (memberText kv).length ≤ fuel →
      Follows tail → readMembers nearest (fuel + 1) (memberText kv ++ tail) =
        afterMember nearest fuel kv tail := by
    intro kv tail fuel hkv hlen htail
    obtain ⟨units, hunits, hkey⟩ := read_quoted kv.1 (':' :: (kv.2.jsonText ++ tail))
    have htext : memberText kv ++ tail = '"' :: (kv.1.toList.flatMap escapeChar ++
        '"' :: ':' :: (kv.2.jsonText ++ tail)) := by
      simp [memberText, quoted]
    have hvalue : 2 * kv.2.jsonText.length + 1 ≤ fuel := by
      simp only [memberText, quoted, List.length_append, List.length_cons] at hlen
      omega
    rw [htext, readMembers, skipSpace_cons _ rfl]
    simp only [hunits, Option.bind_eq_bind, Option.bind_some]
    rw [skipSpace_cons _ rfl]
    simp only []
    rw [hkv fuel tail hvalue htail, hkey]
    rfl
  induction fields generalizing fuel with
  | nil => exact absurd rfl hne
  | cons kv fields ih =>
    obtain ⟨hkv, hfields⟩ := List.forall_mem_cons.mp h
    obtain ⟨fuel, rfl⟩ : ∃ k, fuel = k + 1 := ⟨fuel - 1, by omega⟩
    cases fields with
    | nil =>
      rw [List.map_singleton, commaJoin] at *
      rw [hmember kv _ fuel hkv (by omega) (follows_brace rest), afterMember,
        skipSpace_cons _ rfl]
      rfl
    | cons next fields =>
      rw [List.map_cons, List.map_cons, commaJoin, ← List.map_cons] at *
      simp only [List.length_append, List.length_cons] at hfuel
      rw [List.append_assoc, List.cons_append, hmember kv _ fuel hkv (by omega) (follows_comma _),
        afterMember, skipSpace_cons _ rfl]
      simp only []
      rw [ih (by simp) hfields fuel (by omega)]
      rfl

theorem foldl_defineMember {α : Type} (fields before : List (String × α))
    (h : ((before ++ fields).map Prod.fst).Nodup) :
    fields.foldl defineMember before = before ++ fields := by
  induction fields generalizing before with
  | nil => rw [List.append_nil]; rfl
  | cons kv rest ih =>
    have hnew : kv.1 ∉ before.map Prod.fst := by
      intro hmem
      rw [List.map_append, List.nodup_append] at h
      exact h.2.2 _ hmem _ (by simp) rfl
    have hdefine : defineMember before kv = before ++ [kv] := if_neg hnew
    rw [List.foldl_cons, hdefine, ih _ (by simpa using h), List.append_assoc]
    rfl

theorem Readable.reads (h : Readable nearest v) : Reads nearest v := by
  induction h with
  | null =>
    intro fuel rest hfuel _
    obtain ⟨fuel, rfl⟩ : ∃ k, fuel = k + 1 := ⟨fuel - 1, by omega⟩
    rfl
  | bool b =>
    intro fuel rest hfuel _
    obtain ⟨fuel, rfl⟩ : ∃ k, fuel = k + 1 := ⟨fuel - 1, by omega⟩
    cases b <;> rfl
  | @num q hdecimal hnearest =>
    intro fuel rest hfuel hrest
    obtain ⟨fuel, rfl⟩ : ∃ k, fuel = k + 1 := ⟨fuel - 1, by omega⟩
    obtain ⟨c, cs, htext, hc⟩ := numberText_head hdecimal
    obtain ⟨hspace, -, hn, ht, hf, hquote, hopen, hbrace⟩ := number_start hc
    have hread := readNumber_numberText hdecimal hrest
    rw [JsValue.jsonText]
    rw [htext, List.cons_append] at hread ⊢
    rw [readValue, skipSpace_cons _ hspace]
    split
    · rename_i heq
      exact absurd (List.cons.inj heq).1 hn
    · rename_i heq
      exact absurd (List.cons.inj heq).1 ht
    · rename_i heq
      exact absurd (List.cons.inj heq).1 hf
    · rename_i heq
      exact absurd (List.cons.inj heq).1 hquote
    · rename_i heq
      exact absurd (List.cons.inj heq).1 hopen
    · rename_i heq
      exact absurd (List.cons.inj heq).1 hbrace
    · rw [hread, Option.map_some, hnearest]
  | str s =>
    intro fuel rest hfuel _
    obtain ⟨fuel, rfl⟩ : ∃ k, fuel = k + 1 := ⟨fuel - 1, by omega⟩
    obtain ⟨units, hunits, hs⟩ := read_quoted s rest
    have htext : (JsValue.str s).jsonText ++ rest =
        '"' :: (s.toList.flatMap escapeChar ++ '"' :: rest) := by
      simp [JsValue.jsonText, quoted]
    rw [htext, readValue, skipSpace_cons _ rfl]
    simp only [hunits, Option.map_some, hs]
  | @arr items hitems ih =>
    intro fuel rest hfuel _
    obtain ⟨fuel, rfl⟩ : ∃ k, fuel = k + 1 := ⟨fuel - 1, by omega⟩
    rw [JsValue.jsonText, jsonItems_eq] at *
    simp only [List.length_cons, List.length_append] at hfuel
    rw [List.cons_append, List.append_assoc, List.singleton_append, readValue,
      skipSpace_cons _ rfl]
    cases items with
    | nil => rfl
    | cons v items =>
      obtain ⟨c, cs, htext, hspace, hclose⟩ := (hitems v List.mem_cons_self).start
      have hread := readItems_text (by simp) ih fuel (by omega) rest
      obtain ⟨tail, htail⟩ := commaJoin_start v.jsonText (items.map JsValue.jsonText)
      rw [List.map_cons, htail, htext, List.append_assoc, List.cons_append] at hread ⊢
      simp only []
      rw [skipSpace_cons _ hspace]
      split
      · rename_i heq
        exact absurd (List.cons.inj heq).1 hclose
      · rw [hread]
        rfl
  | @obj fields hnodup horder hfields ih =>
    intro fuel rest hfuel _
    obtain ⟨fuel, rfl⟩ : ∃ k, fuel = k + 1 := ⟨fuel - 1, by omega⟩
    have htexts : JsValue.jsonFields fields = fields.map memberText :=
      jsonFields_eq fun kv hkv => (hfields kv hkv).defined
    rw [JsValue.jsonText, htexts] at hfuel ⊢
    simp only [List.length_cons, List.length_append] at hfuel
    rw [List.cons_append, List.append_assoc, List.singleton_append, readValue,
      skipSpace_cons _ rfl]
    cases fields with
    | nil => rfl
    | cons kv fields =>
      have hread := readMembers_text (by simp) ih fuel (by omega) rest
      obtain ⟨tail, htail⟩ := commaJoin_start (memberText kv) (fields.map memberText)
      have hquote : ∃ cs, memberText kv = '"' :: cs := ⟨_, rfl⟩
      obtain ⟨cs, hcs⟩ := hquote
      rw [List.map_cons, htail, hcs, List.append_assoc, List.cons_append] at hread ⊢
      simp only []
      rw [skipSpace_cons _ rfl]
      split
      · rename_i heq
        exact absurd (List.cons.inj heq).1 (by decide)
      · rw [hread, Option.map_some, foldl_defineMember _ [] (by simpa using hnodup),
          List.nil_append, horder]

/-- `JSON.parse(JSON.stringify(v))` -/
theorem parseJson_jsonText (h : Readable nearest v) :
    parseJson nearest v.jsonText = some v := by
  have hread := h.reads (2 * v.jsonText.length + 1) [] le_rfl (by simp [Follows])
  rw [List.append_nil] at hread
  rw [parseJson, hread]
  rfl

end Values

end Wazir
