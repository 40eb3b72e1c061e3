import Wazir.Shared.JsValue

/-! What a store that revives dates gives back of a value, member by member, and which values it
gives back as they were. -/

namespace Wazir

open JsValue

/-- No key that revival treats in a way of its own. -/
def SafeFields (fields : List (String × JsValue)) : Prop := ∀ kv ∈ fields, kv.1 ∉ unsafeKeys

section Reload

variable (store : RevivingStore) (parseDate : String → JsDate)

@[simp] theorem reload_str (s : String) : store.reload parseDate (.str s) =
    if isIsoDateString s then .date (parseDate s) else .str s := by
  cases store <;> rfl

@[simp] theorem reload_nat (n : ℕ) : store.reload parseDate (.nat n) = .nat n := by
  cases store <;> rfl

theorem reload_arr (items : List JsValue) : store.reload parseDate (.arr items) =
    .arr (items.map (store.reload parseDate)) := by
  cases store <;>
    simp [RevivingStore.reload, jsonImage, reviveDatesInPlace, reviveDatesDeep, imageItems_eq,
      reviveItems_eq, reviveDeepItems_eq, Function.comp_def]

theorem reload_obj {fields : List (String × JsValue)} (h : SafeFields fields) :
    store.reload parseDate (.obj fields) = .obj ((fields.filter fun kv => !kv.2.isUndefined).map
      fun kv => (kv.1, store.reload parseDate kv.2)) := by
  have himage : ∀ kv ∈ imageFields fields, kv.1 ∉ unsafeKeys := by
    intro kv hkv
    rw [imageFields_eq] at hkv
    obtain ⟨kv', hmem, rfl⟩ := List.mem_map.mp hkv
    exact h kv' (List.mem_of_mem_filter hmem)
  cases store with
  | jsonFile =>
    simp only [RevivingStore.reload, jsonImage, reviveDatesInPlace]
    rw [reviveFields_eq parseDate himage, imageFields_eq, List.map_map]
    rfl
  | postgres =>
    simp only [RevivingStore.reload, jsonImage, reviveDatesDeep]
    rw [reviveDeepFields_eq parseDate himage, imageFields_eq, List.map_map]
    rfl

/-- Without undefined members no member is lost. -/
theorem reload_full {fields : List (String × JsValue)} (h : SafeFields fields)
    (hdef : ∀ kv ∈ fields, kv.2.isUndefined = false) : store.reload parseDate (.obj fields) =
      .obj (fields.map fun kv => (kv.1, store.reload parseDate kv.2)) := by
  rw [reload_obj store parseDate h, List.filter_eq_self.mpr fun kv hkv => by rw [hdef kv hkv]; rfl]

/-- What a store gives back is never undefined. -/
theorem reload_defined (v : JsValue) : (store.reload parseDate v).isUndefined = false := by
  cases v with
  | str s =>
    rw [reload_str]
    split_ifs <;> rfl
  | num n => cases n <;> cases store <;> rfl
  | date d =>
    have hstr : ∀ s : String, (store.reload parseDate (.str s)).isUndefined = false := by
      intro s
      rw [reload_str]
      split_ifs <;> rfl
    cases d with
    | none => cases store <;> rfl
    | some t =>
      have := hstr (isoText t)
      cases store <;> exact this
  | _ => cases store <;> rfl

end Reload

theorem map_eq_self {α : Type} {f : α → α} {l : List α} : l.map f = l ↔ ∀ a ∈ l, f a = a := by
  rw [show l.map f = l ↔ l.map f = l.map id by rw [List.map_id], List.map_inj_left]
  rfl

/-- A filtered and mapped list is the list itself. -/
theorem filter_map_eq_self {α : Type} {p : α → Bool} {f : α → α} {l : List α} :
    (l.filter p).map f = l ↔ ∀ a ∈ l, p a = true ∧ f a = a := by
  constructor
  · intro h
    have hlength := congrArg List.length h
    rw [List.length_map] at hlength
    have hall := List.length_filter_eq_length_iff.mp hlength
    rw [List.filter_eq_self.mpr hall] at h
    exact fun a ha => ⟨hall a ha, map_eq_self.mp h a ha⟩
  · intro h
    rw [List.filter_eq_self.mpr fun a ha => (h a ha).1]
    exact map_eq_self.mpr fun a ha => (h a ha).2

namespace JsValue

mutual
/-- Nothing in the value that JSON does not know. -/
def plain : JsValue → Bool
  | .undefined => false
  | .null | .bool _ | .str _ | .num (.finite _) => true
  | .num _ | .date _ => false
  | .arr items => plainItems items
  | .obj fields => plainFields fields
def plainItems : List JsValue → Bool
  | [] => true
  | v :: rest => plain v && plainItems rest
def plainFields : List (String × JsValue) → Bool
  | [] => true
  | (_, v) :: rest => plain v && plainFields rest
end

theorem plainItems_eq (items : List JsValue) : plainItems items = items.all plain := by
  induction items with
  | nil => rfl
  | cons v rest ih => rw [plainItems, ih, List.all_cons]

theorem plainFields_eq (fields : List (String × JsValue)) :
    plainFields fields = fields.all fun kv => plain kv.2 := by
  induction fields with
  | nil => rfl
  | cons kv rest ih => rw [plainFields, ih, List.all_cons]

theorem plain_defined {v : JsValue} (h : plain v = true) : v.isUndefined = false := by
  cases v <;> first | rfl | cases h

theorem jsonImage_eq_self_iff (v : JsValue) : jsonImage v = v ↔ plain v = true := by
  induction v using JsValue.inductionOn with
  | undefined => simp [jsonImage, plain]
  | null => simp [jsonImage, plain]
  | bool b => simp [jsonImage, plain]
  | num n => cases n <;> simp [jsonImage, plain]
  | str s => simp [jsonImage, plain]
  | date d => cases d <;> simp [jsonImage, plain]
  | arr items ih =>
    rw [jsonImage, plain, plainItems_eq, List.all_eq_true, JsValue.arr.injEq, imageItems_eq,
      map_eq_self]
    exact forall₂_congr fun v hv => ih v hv
  | obj fields ih =>
    rw [jsonImage, plain, plainFields_eq, List.all_eq_true, JsValue.obj.injEq, imageFields_eq,
      filter_map_eq_self]
    refine forall₂_congr fun kv hkv => ?_
    rw [Prod.ext_iff]
    constructor
    · rintro ⟨-, -, heq⟩
      exact (ih kv hkv).mp heq
    · intro hplain
      exact ⟨by rw [plain_defined hplain]; rfl, rfl, (ih kv hkv).mpr hplain⟩

namespace RevivingStore

mutual
/-- Nothing in the value changes in the store. `JsonFileStore` leaves the members of unsafe names as
JSON has them, `PostgresStore` drops them. -/
def keeps (store : RevivingStore) : JsValue → Bool
  | .undefined => false
  | .null | .bool _ | .num (.finite _) => true
  | .num _ => false
  | .str s => !isIsoDateString s
  | .date d => d.any fun t => isIsoDateString (isoText t)
  | .arr items => store.keepsItems items
  | .obj fields => store.keepsFields fields
def keepsItems (store : RevivingStore) : List JsValue → Bool
  | [] => true
  | v :: rest => store.keeps v && store.keepsItems rest
def keepsFields (store : RevivingStore) : List (String × JsValue) → Bool
  | [] => true
  | (k, v) :: rest =>
    (if k ∈ unsafeKeys then
      match store with
      | .jsonFile => plain v
      | .postgres => false
    else store.keeps v) && store.keepsFields rest
end

variable (store : RevivingStore) {parseDate : String → JsDate}

theorem keepsItems_eq (items : List JsValue) : store.keepsItems items = items.all store.keeps := by
  induction items with
  | nil => simp [keepsItems]
  | cons v rest ih => rw [keepsItems, ih, List.all_cons]

theorem keepsFields_eq (fields : List (String × JsValue)) : store.keepsFields fields =
    fields.all fun kv => if kv.1 ∈ unsafeKeys then
      match store with
      | .jsonFile => plain kv.2
      | .postgres => false
    else store.keeps kv.2 := by
  induction fields with
  | nil => simp [keepsFields]
  | cons kv rest ih => cases store <;> rw [keepsFields, ih, List.all_cons]

theorem keeps_defined {v : JsValue} (h : store.keeps v = true) : v.isUndefined = false := by
  cases v <;> first | rfl | simp [keeps] at h

theorem reviveFields_map (fields : List (String × JsValue)) : reviveFields parseDate fields =
    fields.map fun kv =>
      (kv.1, if kv.1 ∈ unsafeKeys then kv.2 else reviveDatesInPlace parseDate kv.2) := by
  induction fields with
  | nil => rfl
  | cons kv rest ih => rw [reviveFields, ih, List.map_cons]

theorem reviveDeepFields_map (fields : List (String × JsValue)) :
    reviveDeepFields parseDate fields = (fields.filter fun kv => kv.1 ∉ unsafeKeys).map fun kv =>
      (kv.1, reviveDatesDeep parseDate kv.2) := by
  induction fields with
  | nil => rfl
  | cons kv rest ih =>
    rw [reviveDeepFields, ih]
    by_cases h : kv.1 ∈ unsafeKeys <;> simp [h]

/-- The members of a stored object, one by one. -/
theorem reload_obj_eq_self_iff (fields : List (String × JsValue)) :
    store.reload parseDate (.obj fields) = .obj fields ↔ ∀ kv ∈ fields, kv.2.isUndefined = false ∧
      if kv.1 ∈ unsafeKeys then
        match store with
        | .jsonFile => jsonImage kv.2 = kv.2
        | .postgres => False
      else store.reload parseDate kv.2 = kv.2 := by
  cases store with
  | jsonFile =>
    rw [reload, jsonImage, reviveDatesInPlace, reviveFields_map, imageFields_eq, List.map_map,
      JsValue.obj.injEq, filter_map_eq_self]
    refine forall₂_congr fun kv _ => ?_
    by_cases h : kv.1 ∈ unsafeKeys <;> simp [h, Prod.ext_iff, reload]
  | postgres =>
    rw [reload, jsonImage, reviveDatesDeep, reviveDeepFields_map, imageFields_eq, List.filter_map,
      List.filter_filter, List.map_map, JsValue.obj.injEq, filter_map_eq_self]
    refine forall₂_congr fun kv _ => ?_
    by_cases h : kv.1 ∈ unsafeKeys <;> simp [h, Prod.ext_iff, reload]

/-- The store gives a value back as it was if and only if nothing in it changes. -/
theorem reload_eq_self_iff (hparse : ∀ t, parseDate (isoText t) = some t) (v : JsValue) :
    store.reload parseDate v = v ↔ store.keeps v = true := by
  induction v using JsValue.inductionOn with
  | undefined => cases store <;> simp [reload, jsonImage, reviveDatesInPlace, reviveDatesDeep, keeps]
  | null => cases store <;> simp [reload, jsonImage, reviveDatesInPlace, reviveDatesDeep, keeps]
  | bool b => cases store <;> simp [reload, jsonImage, reviveDatesInPlace, reviveDatesDeep, keeps]
  | num n =>
    cases n <;> cases store <;>
      simp [reload, jsonImage, reviveDatesInPlace, reviveDatesDeep, keeps]
  | str s =>
    rw [reload_str, keeps]
    cases isIsoDateString s <;> simp
  | date d =>
    cases d with
    | none => cases store <;> simp [reload, jsonImage, reviveDatesInPlace, reviveDatesDeep, keeps]
    | some t =>
      have himage : store.reload parseDate (.date (some t)) =
          store.reload parseDate (.str (isoText t)) := by cases store <;> rfl
      rw [himage, reload_str, hparse, keeps]
      cases h : isIsoDateString (isoText t) <;> simp [h]
  | arr items ih =>
    rw [reload_arr, keeps, keepsItems_eq, List.all_eq_true, JsValue.arr.injEq, map_eq_self]
    exact forall₂_congr fun v hv => ih v hv
  | obj fields ih =>
    rw [reload_obj_eq_self_iff, keeps, keepsFields_eq, List.all_eq_true]
    refine forall₂_congr fun kv hkv => ?_
    by_cases hkey : kv.1 ∈ unsafeKeys
    · simp only [hkey, if_true]
      cases store with
      | jsonFile =>
        rw [jsonImage_eq_self_iff]
        exact ⟨fun h => h.2, fun h => ⟨plain_defined h, h⟩⟩
      | postgres => simp
    · simp only [hkey, if_false, ih kv hkv]
      exact ⟨fun h => h.2, fun h => ⟨keeps_defined store h, h⟩⟩

end RevivingStore

end JsValue

end Wazir
