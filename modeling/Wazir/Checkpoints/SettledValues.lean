import Wazir.Checkpoints.Redaction
import Wazir.Shared.IsoText
import Wazir.Shared.OwnProperties

/-! Values whose digest and whose secrets stay what they are when a store that revives dates gives them
back. -/

namespace Wazir.Checkpoints

open JsValue

/-! The text that is hashed. -/

def hashedMember (kv : String × List Char) : List Char := quoted kv.1 ++ ':' :: kv.2

mutual
/-- The text of `canonicalizeForDigest`, where no date is invalid. -/
def canonicalText : JsValue → List Char
  | .date (some t) => quoted (isoText t)
  | .arr items => '[' :: (commaJoin (canonicalTexts items) ++ [']'])
  | .obj fields => '\x7b' :: (commaJoin ((sortKeys (canonicalMembers fields)).map hashedMember) ++ ['\x7d'])
  | v => jsonText v
def canonicalTexts : List JsValue → List (List Char)
  | [] => []
  | v :: rest => canonicalText v :: canonicalTexts rest
def canonicalMembers : List (String × JsValue) → List (String × List Char)
  | [] => []
  | (k, v) :: rest =>
    if v.isUndefined then canonicalMembers rest else (k, canonicalText v) :: canonicalMembers rest
end

mutual
/-- No date is invalid. -/
def validDates : JsValue → Bool
  | .date d => d.isSome
  | .arr items => validItems items
  | .obj fields => validFields fields
  | _ => true
def validItems : List JsValue → Bool
  | [] => true
  | v :: rest => validDates v && validItems rest
def validFields : List (String × JsValue) → Bool
  | [] => true
  | (_, v) :: rest => validDates v && validFields rest
end

theorem canonicalTexts_eq (items : List JsValue) : canonicalTexts items = items.map canonicalText := by
  induction items with
  | nil => rfl
  | cons v rest ih => rw [canonicalTexts, ih, List.map_cons]

theorem canonicalMembers_eq (fields : List (String × JsValue)) : canonicalMembers fields =
    (fields.filter fun kv => !kv.2.isUndefined).map fun kv => (kv.1, canonicalText kv.2) := by
  induction fields with
  | nil => rfl
  | cons kv rest ih =>
    rw [canonicalMembers, ih]
    cases h : kv.2.isUndefined <;> simp [h]

theorem validItems_eq (items : List JsValue) : validItems items = items.all validDates := by
  induction items with
  | nil => rfl
  | cons v rest ih => rw [validItems, ih, List.all_cons]

theorem validFields_eq (fields : List (String × JsValue)) :
    validFields fields = fields.all fun kv => validDates kv.2 := by
  induction fields with
  | nil => rfl
  | cons kv rest ih => rw [validFields, ih, List.all_cons]

/-- What is hashed of a value. -/
structure Canonical (v : JsValue) (c : JsValue) : Prop where
  valid : validDates v = true
  text : jsonText c = canonicalText v
  defined : c.isUndefined = v.isUndefined

theorem jsonFields_texts {fields : List (String × JsValue)}
    (h : ∀ kv ∈ fields, kv.2.isUndefined = false) : jsonFields fields =
      (fields.map fun kv => (kv.1, jsonText kv.2)).map hashedMember := by
  rw [jsonFields_eq h, List.map_map]
  rfl

theorem canonicalItems_some {items out : List JsValue} (h : canonicalItems items = some out)
    (hall : ∀ v ∈ items, ∀ c, canonicalizeForDigest v = some c → Canonical v c) :
    validItems items = true ∧ out.map jsonText = canonicalTexts items := by
  induction items generalizing out with
  | nil =>
    rw [canonicalItems] at h
    obtain rfl := Option.some.inj h
    exact ⟨rfl, rfl⟩
  | cons v rest ih =>
    simp only [canonicalItems, Option.bind_eq_bind, Option.bind_eq_some_iff] at h
    obtain ⟨c, hc, cs, hcs, hout⟩ := h
    obtain rfl := Option.some.inj hout
    obtain ⟨hvalid, htexts⟩ := ih hcs fun v hv => hall v (List.mem_cons_of_mem _ hv)
    have hcanonical := hall v List.mem_cons_self c hc
    rw [validItems, hcanonical.valid, hvalid, List.map_cons, hcanonical.text, htexts, canonicalTexts]
    exact ⟨rfl, rfl⟩

theorem canonicalFields_some {fields out : List (String × JsValue)} (h : canonicalFields fields = some out)
    (hall : ∀ kv ∈ fields, ∀ c, canonicalizeForDigest kv.2 = some c → Canonical kv.2 c) :
    validFields fields = true ∧ (∀ kv ∈ out, kv.2.isUndefined = false) ∧
      out.map (fun kv => (kv.1, jsonText kv.2)) = canonicalMembers fields := by
  induction fields generalizing out with
  | nil =>
    rw [canonicalFields] at h
    obtain rfl := Option.some.inj h
    exact ⟨rfl, List.forall_mem_nil _, rfl⟩
  | cons kv rest ih =>
    obtain ⟨k, v⟩ := kv
    have hrest := fun kv hkv => hall kv (List.mem_cons_of_mem (k, v) hkv)
    rw [canonicalFields] at h
    rw [validFields, canonicalMembers]
    split_ifs at h ⊢ with hv
    · obtain ⟨hvalid, hdefined, htexts⟩ := ih h hrest
      refine ⟨?_, hdefined, htexts⟩
      rw [hvalid, Bool.and_true]
      cases v <;> first | rfl | cases hv
    · simp only [Option.bind_eq_bind, Option.bind_eq_some_iff] at h
      obtain ⟨c, hc, cs, hcs, hout⟩ := h
      obtain rfl := Option.some.inj hout
      obtain ⟨hvalid, hdefined, htexts⟩ := ih hcs hrest
      have hcanonical := hall (k, v) List.mem_cons_self c hc
      refine ⟨by rw [hcanonical.valid, hvalid]; rfl, ?_, ?_⟩
      · refine List.forall_mem_cons.mpr ⟨?_, hdefined⟩
        rw [hcanonical.defined]
        simpa using hv
      · rw [List.map_cons, hcanonical.text, htexts]

theorem canonical_of_some {v c : JsValue} (h : canonicalizeForDigest v = some c) : Canonical v c := by
  induction v using JsValue.inductionOn generalizing c with
  | date d =>
    obtain ⟨t, rfl, rfl⟩ := Option.map_eq_some_iff.mp h
    exact ⟨rfl, rfl, rfl⟩
  | arr items ih =>
    rw [canonicalizeForDigest] at h
    obtain ⟨out, hout, rfl⟩ := Option.map_eq_some_iff.mp h
    obtain ⟨hvalid, htexts⟩ := canonicalItems_some hout ih
    exact ⟨hvalid, by rw [jsonText, jsonItems_eq, htexts, canonicalText], rfl⟩
  | obj fields ih =>
    rw [canonicalizeForDigest] at h
    obtain ⟨out, hout, rfl⟩ := Option.map_eq_some_iff.mp h
    obtain ⟨hvalid, hdefined, htexts⟩ := canonicalFields_some hout ih
    refine ⟨hvalid, ?_, rfl⟩
    have hsorted : ∀ kv ∈ sortKeys out, kv.2.isUndefined = false :=
      fun kv hkv => hdefined kv (mem_sortBy.mp hkv)
    rw [show sortBy (fun a b => compareStrings a.1 b.1) out = sortKeys out from rfl, jsonText,
      jsonFields_texts hsorted, ← sortKeys_map, htexts, canonicalText]
  | _ =>
    obtain rfl := Option.some.inj h
    exact ⟨rfl, rfl, rfl⟩

variable {v : JsValue}

theorem exists_canonical (h : validDates v = true) :
    ∃ c, canonicalizeForDigest v = some c := by
  induction v using JsValue.inductionOn with
  | date d =>
    obtain ⟨t, rfl⟩ := Option.isSome_iff_exists.mp h
    exact ⟨_, rfl⟩
  | arr items ih =>
    have hitems : ∃ out, canonicalItems items = some out := by
      rw [validDates, validItems_eq, List.all_eq_true] at h
      induction items with
      | nil => exact ⟨[], by rw [canonicalItems]⟩
      | cons v rest ihrest =>
        obtain ⟨c, hc⟩ := ih v List.mem_cons_self (h v List.mem_cons_self)
        obtain ⟨cs, hcs⟩ := ihrest (fun v hv => ih v (List.mem_cons_of_mem _ hv))
          fun v hv => h v (List.mem_cons_of_mem _ hv)
        exact ⟨c :: cs, by rw [canonicalItems, hc, hcs]; rfl⟩
    obtain ⟨out, hout⟩ := hitems
    exact ⟨.arr out, by rw [canonicalizeForDigest, hout]; rfl⟩
  | obj fields ih =>
    have hfields : ∃ out, canonicalFields fields = some out := by
      rw [validDates, validFields_eq, List.all_eq_true] at h
      induction fields with
      | nil => exact ⟨[], by rw [canonicalFields]⟩
      | cons kv rest ihrest =>
        obtain ⟨c, hc⟩ := ih kv List.mem_cons_self (h kv List.mem_cons_self)
        obtain ⟨cs, hcs⟩ := ihrest (fun kv hkv => ih kv (List.mem_cons_of_mem _ hkv))
          fun kv hkv => h kv (List.mem_cons_of_mem _ hkv)
        rw [canonicalFields]
        split_ifs
        · exact ⟨cs, hcs⟩
        · exact ⟨(kv.1, c) :: cs, by rw [hc, hcs]; rfl⟩
    obtain ⟨out, hout⟩ := hfields
    exact ⟨_, by rw [canonicalizeForDigest, hout]; rfl⟩
  | undefined => exact ⟨_, rfl⟩
  | null => exact ⟨_, rfl⟩
  | bool b => exact ⟨_, rfl⟩
  | num n => exact ⟨_, rfl⟩
  | str s => exact ⟨_, rfl⟩

/-- The digest of a value is that of its text. -/
theorem computePortableHandoffDigest_eq (host : RestoreHost) (v : JsValue) :
    host.computePortableHandoffDigest v =
      if validDates (blankDigest v) then
        some (host.sha256 (String.ofList (canonicalText (blankDigest v))))
      else none := by
  rw [RestoreHost.computePortableHandoffDigest]
  split_ifs with h
  · obtain ⟨c, hc⟩ := exists_canonical h
    rw [hc, Option.map_some, (canonical_of_some hc).text]
  · cases hc : canonicalizeForDigest (blankDigest v) with
    | none => rfl
    | some c => exact absurd (canonical_of_some hc).valid h

/-! Values that settle. -/

/-- The member has a secret's name and holds a date: as a text it is a secret. -/
def secretDate (kv : String × JsValue) : Bool :=
  secretKey kv.1 &&
    match kv.2 with
    | .date _ => true
    | _ => false

mutual
/-- No date stands under the name of a secret. -/
def dateless : JsValue → Bool
  | .arr items => datelessItems items
  | .obj fields => datelessFields fields
  | _ => true
def datelessItems : List JsValue → Bool
  | [] => true
  | v :: rest => dateless v && datelessItems rest
def datelessFields : List (String × JsValue) → Bool
  | [] => true
  | (k, v) :: rest => !secretDate (k, v) && dateless v && datelessFields rest
end

/-- A date whose text does not look like one. -/
def lateDate : JsValue → Bool
  | .date (some t) => !isIsoDateString (isoText t)
  | _ => false

/-- A text that looks like a date is one that `toISOString` writes. -/
def settledText (parseDate : String → JsDate) (s : String) : Bool :=
  !isIsoDateString s || (parseDate s).any fun t => isoText t = s

mutual
/-- A store gives back a value of the same digest and of no more secrets. -/
def settled (store : RevivingStore) (parseDate : String → JsDate) : JsValue → Bool
  | .str s => settledText parseDate s
  | .arr items => settledItems store parseDate items
  | .obj fields => settledFields store parseDate fields
  | _ => true
def settledItems (store : RevivingStore) (parseDate : String → JsDate) : List JsValue → Bool
  | [] => true
  | v :: rest => settled store parseDate v && settledItems store parseDate rest
def settledFields (store : RevivingStore) (parseDate : String → JsDate) :
    List (String × JsValue) → Bool
  | [] => true
  | (k, v) :: rest =>
    (if k ∈ unsafeKeys then
      match store with
      -- revival does not go below these names
      | .jsonFile => dateless v
      -- revival drops these members
      | .postgres => v.isUndefined
    else settled store parseDate v && !(secretKey k && lateDate v)) && settledFields store parseDate rest
end

theorem datelessItems_eq (items : List JsValue) : datelessItems items = items.all dateless := by
  induction items with
  | nil => rfl
  | cons v rest ih => rw [datelessItems, ih, List.all_cons]

theorem datelessFields_eq (fields : List (String × JsValue)) : datelessFields fields =
    fields.all fun kv => !secretDate kv && dateless kv.2 := by
  induction fields with
  | nil => rfl
  | cons kv rest ih => rw [datelessFields, ih, List.all_cons]

theorem secretItems_eq (items : List JsValue) : secretItems items = items.any containsUnredactedSecret := by
  induction items with
  | nil => rfl
  | cons v rest ih => rw [secretItems, ih, List.any_cons]

/-- The member gives a secret away. -/
def secretMember (kv : String × JsValue) : Bool :=
  (secretKey kv.1 && kv.2.string.any fun s => s ≠ "[REDACTED]" && s ≠ "") ||
    containsUnredactedSecret kv.2

theorem secretFields_eq (fields : List (String × JsValue)) : secretFields fields = fields.any secretMember := by
  induction fields with
  | nil => rfl
  | cons kv rest ih => rw [secretFields, ih, List.any_cons, secretMember]

/-- Digits and the marks of a date. -/
def isIsoChar (c : Char) : Bool := c.isDigit || c ∈ "+-T:.Z".toList

theorem isoChars_append {s s' : String} (h : s.toList.all isIsoChar) (h' : s'.toList.all isIsoChar) :
    (s ++ s').toList.all isIsoChar := by
  rw [String.toList_append, List.all_append, h, h']
  rfl

theorem padded_isoChars (width n : ℕ) : (padded width n).toList.all isIsoChar := by
  refine List.all_eq_true.mpr fun c hc => ?_
  rw [isIsoChar, padded_digits c hc, Bool.true_or]

theorem yearText_isoChars (year : ℤ) : (yearText year).toList.all isIsoChar := by
  rw [yearText]
  split_ifs
  · exact padded_isoChars _ _
  · exact isoChars_append rfl (padded_isoChars _ _)
  · exact isoChars_append rfl (padded_isoChars _ _)

theorem isoText_isoChars (t : Timestamp) : (isoText t).toList.all isIsoChar := by
  have hmark : ∀ {s mark : String}, mark.toList.all isIsoChar → s.toList.all isIsoChar →
      (s ++ mark).toList.all isIsoChar := fun hmark h => isoChars_append h hmark
  have hpart : ∀ {s : String} (width n : ℕ), s.toList.all isIsoChar →
      (s ++ padded width n).toList.all isIsoChar :=
    fun width n h => isoChars_append h (padded_isoChars width n)
  exact hmark rfl (hpart _ _ (hmark rfl (hpart _ _ (hmark rfl (hpart _ _ (hmark rfl (hpart _ _
    (hmark rfl (hpart _ _ (hmark rfl (hpart _ _ (hmark rfl (yearText_isoChars _)))))))))))))

theorem isIsoChar_lower {c : Char} (h : isIsoChar c = true) : c.toLower ≠ 'e' ∧ c.toLower ≠ 'o' := by
  have hmarks : "+-T:.Z".toList.all (fun c => c.toLower ≠ 'e' ∧ c.toLower ≠ 'o') = true := by decide
  rw [isIsoChar, Bool.or_eq_true, decide_eq_true_eq] at h
  rcases h with hdigit | hmark
  · have hrange : 48 ≤ c.toNat ∧ c.toNat ≤ 57 := Char.isDigit_iff_toNat.mp hdigit
    have hupper : ¬ (c.val ≥ 'A'.val ∧ c.val ≤ 'Z'.val) := by
      rintro ⟨hlow, -⟩
      have : 65 ≤ c.toNat := UInt32.le_iff_toNat_le.mp hlow
      omega
    rw [Char.toLower, dif_neg hupper]
    constructor <;> rintro rfl <;> simp at hrange
  · exact of_decide_eq_true (List.all_eq_true.mp hmarks c hmark)

theorem secretText_isoText (t : Timestamp) : secretText (isoText t) = false :=
  secretText_vowels fun c hc => isIsoChar_lower (List.all_eq_true.mp (isoText_isoChars t) c hc)

/-- A member with another value, which is a text only if the value was that text. -/
theorem secretMember_other {k : String} {v w : JsValue} (h : secretMember (k, v) = false)
    (hw : containsUnredactedSecret w = false)
    (hstring : secretKey k = true → ∀ s, w.string = some s → v.string = some s) :
    secretMember (k, w) = false := by
  rw [secretMember, hw, Bool.or_false]
  rw [secretMember, Bool.or_eq_false_iff] at h
  cases hkey : secretKey k with
  | false => rfl
  | true =>
    cases hs : w.string with
    | none => rfl
    | some s =>
      have := h.1
      rw [hkey, hstring hkey s hs] at this
      exact this

theorem image_string {s : String} (h : (jsonImage v).string = some s) :
    v.string = some s ∨ ∃ d, v = .date d := by
  cases v with
  | str s' => exact .inl h
  | date d => exact .inr ⟨d, rfl⟩
  | num n => cases n <;> cases h
  | _ => cases h

/-- The image has no more secrets: dates become texts, but none under a secret's name. -/
theorem containsUnredactedSecret_image (h : containsUnredactedSecret v = false)
    (hdateless : dateless v = true) : containsUnredactedSecret (jsonImage v) = false := by
  induction v using JsValue.inductionOn with
  | num n => cases n <;> rfl
  | date d =>
    cases d with
    | none => rfl
    | some t => exact secretText_isoText t
  | arr items ih =>
    rw [containsUnredactedSecret, secretItems_eq, List.any_eq_false] at h
    rw [dateless, datelessItems_eq, List.all_eq_true] at hdateless
    rw [jsonImage, containsUnredactedSecret, secretItems_eq, imageItems_eq, List.any_eq_false]
    intro image himage
    obtain ⟨v, hv, rfl⟩ := List.mem_map.mp himage
    rw [Bool.not_eq_true]
    exact ih v hv (by simpa using h v hv) (hdateless v hv)
  | obj fields ih =>
    rw [containsUnredactedSecret, secretFields_eq, List.any_eq_false] at h
    rw [dateless, datelessFields_eq, List.all_eq_true] at hdateless
    rw [jsonImage, containsUnredactedSecret, secretFields_eq, imageFields_eq, List.any_eq_false]
    intro image himage
    obtain ⟨⟨k, v⟩, hkv, rfl⟩ := List.mem_map.mp himage
    have hmem := List.mem_of_mem_filter hkv
    have hmember : secretMember (k, v) = false := by simpa using h _ hmem
    have hdate := hdateless _ hmem
    rw [Bool.and_eq_true] at hdate
    have hvalue := (Bool.or_eq_false_iff.mp hmember).2
    rw [Bool.not_eq_true]
    refine secretMember_other hmember (ih _ hmem hvalue hdate.2) fun hkey s hs => ?_
    refine (image_string hs).resolve_right ?_
    rintro ⟨d, rfl⟩
    simp [secretDate, hkey] at hdate
  | _ => exact h

/-! What the store gives back. -/

section Reload

variable {store : RevivingStore} {parseDate : String → JsDate}

theorem settledItems_eq (items : List JsValue) :
    settledItems store parseDate items = items.all (settled store parseDate) := by
  induction items with
  | nil => rw [settledItems]; rfl
  | cons v rest ih => rw [settledItems, ih, List.all_cons]

/-- What settled says of a member. -/
def settledMember (store : RevivingStore) (parseDate : String → JsDate) (kv : String × JsValue) : Bool :=
  if kv.1 ∈ unsafeKeys then
    match store with
    | .jsonFile => dateless kv.2
    | .postgres => kv.2.isUndefined
  else settled store parseDate kv.2 && !(secretKey kv.1 && lateDate kv.2)

theorem settledFields_eq (fields : List (String × JsValue)) :
    settledFields store parseDate fields = fields.all (settledMember store parseDate) := by
  induction fields with
  | nil => rw [settledFields]; rfl
  | cons kv rest ih => cases store <;> rw [settledFields, ih, List.all_cons, settledMember]

theorem settledMember_safe {kv : String × JsValue} (hkey : kv.1 ∉ unsafeKeys) :
    settledMember store parseDate kv =
      (settled store parseDate kv.2 && !(secretKey kv.1 && lateDate kv.2)) :=
  if_neg hkey

theorem settledMember_dropped {kv : String × JsValue} (hkey : kv.1 ∈ unsafeKeys)
    (h : settledMember store parseDate kv = true) : dateless kv.2 = true := by
  rw [settledMember.eq_def, if_pos hkey] at h
  cases store with
  | jsonFile => exact h
  | postgres =>
    cases hv : kv.2 with
    | undefined => rfl
    | _ => simp [hv, isUndefined] at h

/-- A member as the store gives it back. -/
def reloadedMember (store : RevivingStore) (parseDate : String → JsDate) (kv : String × JsValue) : JsValue :=
  if kv.1 ∈ unsafeKeys then jsonImage kv.2 else store.reload parseDate kv.2

theorem reload_settled {fields : List (String × JsValue)}
    (h : ∀ kv ∈ fields, settledMember store parseDate kv = true) :
    store.reload parseDate (.obj fields) = .obj ((fields.filter fun kv => !kv.2.isUndefined).map
      fun kv => (kv.1, reloadedMember store parseDate kv)) := by
  cases store with
  | jsonFile =>
    rw [RevivingStore.reload, jsonImage, reviveDatesInPlace, RevivingStore.reviveFields_map,
      imageFields_eq, List.map_map]
    rfl
  | postgres =>
    rw [RevivingStore.reload, jsonImage, reviveDatesDeep, RevivingStore.reviveDeepFields_map,
      imageFields_eq, List.filter_map, List.map_map]
    have hsafe : ∀ kv ∈ fields.filter fun kv => !kv.2.isUndefined, kv.1 ∉ unsafeKeys := by
      intro kv hkv hunsafe
      obtain ⟨hmem, hdefined⟩ := List.mem_filter.mp hkv
      have := h kv hmem
      rw [settledMember, if_pos hunsafe] at this
      simp [this] at hdefined
    rw [List.filter_eq_self.mpr fun kv hkv => by simpa using hsafe kv hkv]
    congr 1
    refine List.map_congr_left fun kv hkv => ?_
    simp only [Function.comp_apply, reloadedMember, if_neg (hsafe kv hkv), RevivingStore.reload]

theorem image_defined (h : v.isUndefined = false) : (jsonImage v).isUndefined = false := by
  cases v with
  | undefined => cases h
  | num n => cases n <;> rfl
  | date d => cases d <;> rfl
  | _ => rfl

/-- Members with other values of the same text. -/
theorem canonicalMembers_map {fields : List (String × JsValue)} {f : String × JsValue → JsValue}
    (h : ∀ kv ∈ fields, kv.2.isUndefined = false → (f kv).isUndefined = false ∧
      validDates (f kv) = true ∧ canonicalText (f kv) = canonicalText kv.2) :
    let mapped := (fields.filter fun kv => !kv.2.isUndefined).map fun kv => (kv.1, f kv)
    validFields mapped = true ∧ canonicalMembers mapped = canonicalMembers fields := by
  have hmem : ∀ kv ∈ fields.filter fun kv => !kv.2.isUndefined, (f kv).isUndefined = false ∧
      validDates (f kv) = true ∧ canonicalText (f kv) = canonicalText kv.2 := by
    intro kv hkv
    obtain ⟨hkv, hdefined⟩ := List.mem_filter.mp hkv
    exact h kv hkv (by simpa using hdefined)
  constructor
  · rw [validFields_eq, List.all_map, List.all_eq_true]
    exact fun kv hkv => (hmem kv hkv).2.1
  · rw [canonicalMembers_eq, canonicalMembers_eq, List.filter_map, List.map_map]
    rw [List.filter_eq_self.mpr fun kv hkv => by
      simp only [Function.comp_apply, (hmem kv hkv).1, Bool.not_false]]
    refine List.map_congr_left fun kv hkv => ?_
    simp only [Function.comp_apply, (hmem kv hkv).2.2]

/-- Items with other values of the same text. -/
theorem canonicalTexts_map {items : List JsValue} {f : JsValue → JsValue}
    (h : ∀ v ∈ items, validDates (f v) = true ∧ canonicalText (f v) = canonicalText v) :
    validItems (items.map f) = true ∧ canonicalTexts (items.map f) = canonicalTexts items := by
  constructor
  · rw [validItems_eq, List.all_map, List.all_eq_true]
    exact fun v hv => (h v hv).1
  · rw [canonicalTexts_eq, canonicalTexts_eq, List.map_map]
    exact List.map_congr_left fun v hv => (h v hv).2

theorem canonicalText_image (h : validDates v = true) :
    validDates (jsonImage v) = true ∧ canonicalText (jsonImage v) = canonicalText v := by
  induction v using JsValue.inductionOn with
  | num n => cases n <;> exact ⟨rfl, rfl⟩
  | date d =>
    obtain ⟨t, rfl⟩ := Option.isSome_iff_exists.mp h
    exact ⟨rfl, rfl⟩
  | arr items ih =>
    rw [validDates, validItems_eq, List.all_eq_true] at h
    obtain ⟨hvalid, htexts⟩ := canonicalTexts_map fun v hv => ih v hv (h v hv)
    rw [jsonImage, imageItems_eq]
    exact ⟨hvalid, by rw [canonicalText, canonicalText, htexts]⟩
  | obj fields ih =>
    rw [validDates, validFields_eq, List.all_eq_true] at h
    obtain ⟨hvalid, hmembers⟩ := canonicalMembers_map (f := fun kv => jsonImage kv.2)
      fun kv hkv hdefined => ⟨image_defined hdefined, ih kv hkv (h kv hkv)⟩
    rw [jsonImage, imageFields_eq]
    exact ⟨hvalid, by rw [canonicalText, canonicalText, hmembers]⟩
  | undefined => exact ⟨rfl, rfl⟩
  | null => exact ⟨rfl, rfl⟩
  | bool b => exact ⟨rfl, rfl⟩
  | str s => exact ⟨rfl, rfl⟩

theorem reload_date (t : Timestamp) : store.reload parseDate (.date (some t)) =
    store.reload parseDate (.str (isoText t)) := by
  cases store <;> rfl

theorem canonicalText_reload (hparse : ∀ t, parseDate (isoText t) = some t)
    (h : validDates v = true) (hsettled : settled store parseDate v = true) :
    validDates (store.reload parseDate v) = true ∧
      canonicalText (store.reload parseDate v) = canonicalText v := by
  induction v using JsValue.inductionOn with
  | undefined => cases store <;> exact ⟨rfl, rfl⟩
  | null => cases store <;> exact ⟨rfl, rfl⟩
  | bool b => cases store <;> exact ⟨rfl, rfl⟩
  | num n => cases store <;> cases n <;> exact ⟨rfl, rfl⟩
  | str s =>
    rw [reload_str]
    split_ifs with hiso
    · rw [settled, settledText, hiso, Bool.not_true, Bool.false_or] at hsettled
      cases ht : parseDate s with
      | none =>
        rw [ht] at hsettled
        cases hsettled
      | some t =>
        rw [ht, Option.any_some, decide_eq_true_eq] at hsettled
        exact ⟨rfl, by rw [canonicalText, hsettled]; rfl⟩
    · exact ⟨rfl, rfl⟩
  | date d =>
    obtain ⟨t, rfl⟩ := Option.isSome_iff_exists.mp h
    rw [reload_date, reload_str, hparse]
    split_ifs <;> exact ⟨rfl, rfl⟩
  | arr items ih =>
    rw [validDates, validItems_eq, List.all_eq_true] at h
    rw [settled, settledItems_eq, List.all_eq_true] at hsettled
    obtain ⟨hvalid, htexts⟩ := canonicalTexts_map fun v hv => ih v hv (h v hv) (hsettled v hv)
    rw [reload_arr]
    exact ⟨hvalid, by rw [canonicalText, canonicalText, htexts]⟩
  | obj fields ih =>
    rw [validDates, validFields_eq, List.all_eq_true] at h
    rw [settled, settledFields_eq, List.all_eq_true] at hsettled
    have hreloaded : ∀ kv ∈ fields, kv.2.isUndefined = false →
        (reloadedMember store parseDate kv).isUndefined = false ∧
          validDates (reloadedMember store parseDate kv) = true ∧
            canonicalText (reloadedMember store parseDate kv) = canonicalText kv.2 := by
      intro kv hkv hdefined
      rw [reloadedMember]
      split_ifs with hunsafe
      · exact ⟨image_defined hdefined, canonicalText_image (h kv hkv)⟩
      · have hmember := hsettled kv hkv
        rw [settledMember_safe hunsafe, Bool.and_eq_true] at hmember
        exact ⟨reload_defined store parseDate kv.2, ih kv hkv (h kv hkv) hmember.1⟩
    obtain ⟨hvalid, hmembers⟩ := canonicalMembers_map hreloaded
    rw [reload_settled hsettled]
    exact ⟨hvalid, by rw [canonicalText, canonicalText, hmembers]⟩

theorem reload_string {s : String} (h : (store.reload parseDate v).string = some s) :
    v.string = some s ∨ lateDate v = true := by
  cases v with
  | str s' =>
    rw [reload_str] at h
    split_ifs at h
    · cases h
    · exact .inl h
  | date d =>
    cases d with
    | none => cases store <;> cases h
    | some t =>
      rw [reload_date, reload_str] at h
      split_ifs at h with hiso
      · cases h
      · exact .inr (by simpa [lateDate] using hiso)
  | num n => cases store <;> cases n <;> cases h
  | _ => cases store <;> cases h

theorem containsUnredactedSecret_reload (h : containsUnredactedSecret v = false)
    (hsettled : settled store parseDate v = true) :
    containsUnredactedSecret (store.reload parseDate v) = false := by
  induction v using JsValue.inductionOn with
  | undefined => cases store <;> rfl
  | null => cases store <;> rfl
  | bool b => cases store <;> rfl
  | num n => cases store <;> cases n <;> rfl
  | str s =>
    rw [reload_str]
    split_ifs
    · rfl
    · exact h
  | date d =>
    cases d with
    | none => cases store <;> rfl
    | some t =>
      rw [reload_date, reload_str]
      split_ifs
      · rfl
      · exact secretText_isoText t
  | arr items ih =>
    rw [containsUnredactedSecret, secretItems_eq, List.any_eq_false] at h
    rw [settled, settledItems_eq, List.all_eq_true] at hsettled
    rw [reload_arr, containsUnredactedSecret, secretItems_eq, List.any_eq_false]
    intro back hback
    obtain ⟨v, hv, rfl⟩ := List.mem_map.mp hback
    rw [Bool.not_eq_true]
    exact ih v hv (by simpa using h v hv) (hsettled v hv)
  | obj fields ih =>
    rw [containsUnredactedSecret, secretFields_eq, List.any_eq_false] at h
    rw [settled, settledFields_eq, List.all_eq_true] at hsettled
    rw [reload_settled hsettled, containsUnredactedSecret, secretFields_eq, List.any_eq_false]
    intro back hback
    obtain ⟨⟨k, v⟩, hkv, rfl⟩ := List.mem_map.mp hback
    have hmem := List.mem_of_mem_filter hkv
    have hmember : secretMember (k, v) = false := by simpa using h _ hmem
    have hvalue := (Bool.or_eq_false_iff.mp hmember).2
    have hsettles := hsettled _ hmem
    rw [Bool.not_eq_true, reloadedMember]
    split_ifs with hunsafe
    · have himage := containsUnredactedSecret_image hvalue (settledMember_dropped hunsafe hsettles)
      refine secretMember_other hmember himage fun hkey => ?_
      have hnone : ∀ key ∈ unsafeKeys, secretKey key = false := by decide
      rw [hnone k hunsafe] at hkey
      cases hkey
    · rw [settledMember_safe hunsafe, Bool.and_eq_true] at hsettles
      refine secretMember_other hmember (ih _ hmem hvalue hsettles.1) fun hkey s hs => ?_
      refine (reload_string hs).resolve_right fun hlate => ?_
      simp [hkey, hlate] at hsettles

end Reload

end Wazir.Checkpoints
