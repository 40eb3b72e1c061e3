import Wazir.Shared.Reload
import Wazir.Goals.AuditLog

/-! Which values keep their canonical text when a store gives them back. A `Date` has no entries,
so a string that is revived as one loses its text. -/

namespace Wazir.Goals

open JsValue

mutual
/-- Nothing in the value has another text once a store has given it back. -/
def survives : JsValue → Bool
  | .undefined => false
  | .null | .bool _ | .num _ => true
  | .str s => !isIsoDateString s
  | .date (some t) => isIsoDateString (isoText t)
  | .date none => false
  | .arr items => survivesItems items
  | .obj fields => survivesFields fields
def survivesItems : List JsValue → Bool
  | [] => true
  | v :: rest => survives v && survivesItems rest
def survivesFields : List (String × JsValue) → Bool
  | [] => true
  | (_, v) :: rest => (v.isUndefined || survives v) && survivesFields rest
end

mutual
/-- No object in the value has an unsafe key. -/
def safeKeys : JsValue → Bool
  | .arr items => safeKeysItems items
  | .obj fields => safeKeysFields fields
  | _ => true
def safeKeysItems : List JsValue → Bool
  | [] => true
  | v :: rest => safeKeys v && safeKeysItems rest
def safeKeysFields : List (String × JsValue) → Bool
  | [] => true
  | (k, v) :: rest => k ∉ unsafeKeys && safeKeys v && safeKeysFields rest
end

theorem survives_arr {items : List JsValue} :
    survives (.arr items) = true ↔ ∀ v ∈ items, survives v = true := by
  rw [survives]
  induction items with
  | nil => simp [survivesItems]
  | cons v rest ih => simp [survivesItems, ih]

theorem survives_obj {fields : List (String × JsValue)} : survives (.obj fields) = true ↔
    ∀ kv ∈ fields, kv.2.isUndefined = false → survives kv.2 = true := by
  rw [survives]
  induction fields with
  | nil => simp [survivesFields]
  | cons kv rest ih =>
    rw [survivesFields, Bool.and_eq_true, ih, List.forall_mem_cons]
    cases kv.2.isUndefined <;> simp

theorem safeKeys_arr {items : List JsValue} :
    safeKeys (.arr items) = true ↔ ∀ v ∈ items, safeKeys v = true := by
  rw [safeKeys]
  induction items with
  | nil => simp [safeKeysItems]
  | cons v rest ih => simp [safeKeysItems, ih]

theorem safeKeys_obj {fields : List (String × JsValue)} : safeKeys (.obj fields) = true ↔
    SafeFields fields ∧ ∀ kv ∈ fields, safeKeys kv.2 = true := by
  rw [safeKeys]
  induction fields with
  | nil => simp [safeKeysFields, SafeFields]
  | cons kv rest ih =>
    simp only [safeKeysFields, SafeFields, Bool.and_eq_true, decide_eq_true_eq,
      List.forall_mem_cons] at ih ⊢
    rw [ih]
    tauto

/-! Texts cannot run into each other: after a value comes a comma or a closing bracket. -/

def Delimited (rest : List Char) : Prop :=
  ∀ c ∈ rest.head?, c = ',' ∨ c = ']' ∨ c = '\x7d'

section Text

variable {localeCompare : String → String → Ordering}

theorem canonicalItems_eq (items : List JsValue) :
    canonicalItems localeCompare items = items.map (canonicalJson localeCompare) := by
  induction items with
  | nil => rfl
  | cons v rest ih => rw [canonicalItems, ih, List.map_cons]

/-- The piece of text of one member. -/
def memberText (localeCompare : String → String → Ordering) (kv : String × JsValue) : List Char :=
  quoted kv.1 ++ ':' :: canonicalJson localeCompare kv.2

theorem canonicalFields_eq (fields : List (String × JsValue)) :
    canonicalFields localeCompare fields =
      (fields.filter fun kv => !kv.2.isUndefined).map fun kv => (kv.1, memberText localeCompare kv) := by
  induction fields with
  | nil => rfl
  | cons kv rest ih =>
    rw [canonicalFields, ih]
    cases h : kv.2.isUndefined <;> simp [h, memberText]

/-- The members in the order they are written. -/
def sortedMembers (localeCompare : String → String → Ordering) (fields : List (String × JsValue)) :
    List (String × JsValue) :=
  sortBy (fun a b => localeCompare a.1 b.1) (fields.filter fun kv => !kv.2.isUndefined)

theorem canonicalJson_obj (fields : List (String × JsValue)) :
    canonicalJson localeCompare (.obj fields) = '\x7b' ::
      (commaJoin ((sortedMembers localeCompare fields).map (memberText localeCompare)) ++
        ['\x7d']) := by
  have hsort : sortBy (fun a b : String × List Char => localeCompare a.1 b.1)
      (canonicalFields localeCompare fields) =
        (sortedMembers localeCompare fields).map fun kv => (kv.1, memberText localeCompare kv) := by
    rw [canonicalFields_eq]
    exact sortBy_map (fun _ _ => rfl) _
  rw [canonicalJson, hsort, List.map_map]
  rfl

/-- Pieces that cannot run into each other, joined and closed. -/
theorem commaJoin_cancel {ι : Type} {f g : ι → List Char} {P : ι → Prop} {close : Char}
    (hclose : Delimited [close]) {items : List ι}
    (h : ∀ x ∈ items, ∀ a b, Delimited a → Delimited b → (f x ++ a = g x ++ b ↔ P x ∧ a = b))
    (a b : List Char) :
    commaJoin (items.map f) ++ close :: a = commaJoin (items.map g) ++ close :: b ↔
      (∀ x ∈ items, P x) ∧ a = b := by
  have hdelim : ∀ rest, Delimited (close :: rest) := fun rest c hc => hclose c hc
  induction items with
  | nil => simp [commaJoin]
  | cons x rest ih =>
    obtain ⟨hx, hrest⟩ := List.forall_mem_cons.mp h
    cases rest with
    | nil => simp [commaJoin, hx _ _ (hdelim a) (hdelim b)]
    | cons y rest =>
      have hcomma : ∀ cs, Delimited (',' :: cs) := fun cs c hc => by
        cases hc
        exact .inl rfl
      simp only [List.map_cons, commaJoin, List.append_assoc, List.cons_append] at ih ⊢
      rw [hx _ _ (hcomma _) (hcomma _), List.cons.injEq, List.forall_mem_cons, and_assoc]
      refine and_congr_right fun _ => ?_
      rw [eq_self_iff_true, true_and]
      exact ih hrest

variable (store : RevivingStore) (parseDate : String → JsDate)

theorem sortedMembers_reload {fields : List (String × JsValue)} :
    sortedMembers localeCompare ((fields.filter fun kv => !kv.2.isUndefined).map
      fun kv => (kv.1, store.reload parseDate kv.2)) =
    (sortedMembers localeCompare fields).map fun kv => (kv.1, store.reload parseDate kv.2) := by
  have hall : ((fields.filter fun kv => !kv.2.isUndefined).map
      fun kv => (kv.1, store.reload parseDate kv.2)).filter (fun kv => !kv.2.isUndefined) =
        (fields.filter fun kv => !kv.2.isUndefined).map
          fun kv => (kv.1, store.reload parseDate kv.2) := by
    refine List.filter_eq_self.mpr fun kv hkv => ?_
    obtain ⟨kv', -, rfl⟩ := List.mem_map.mp hkv
    simp [reload_defined]
  rw [sortedMembers, hall]
  exact sortBy_map (fun _ _ => rfl) _

/-- The text stays and what follows it can be told, exactly for values that survive. Induction on
the value: each member's text is followed by a delimiter. -/
theorem canonicalJson_reload {v : JsValue} (hsafe : safeKeys v = true) :
    ∀ a b, Delimited a → Delimited b →
      (canonicalJson localeCompare v ++ a =
        canonicalJson localeCompare (store.reload parseDate v) ++ b ↔ survives v = true ∧ a = b) := by
  induction v using JsValue.inductionOn with
  | undefined =>
    intro a b ha _
    have himage : store.reload parseDate .undefined = .null := by cases store <;> rfl
    rw [himage]
    simp only [canonicalJson, survives, Bool.false_eq_true, false_and, iff_false]
    rintro rfl
    rcases ha 'n' rfl with h | h | h <;> exact absurd h (by decide)
  | null =>
    intro a b _ _
    have himage : store.reload parseDate .null = .null := by cases store <;> rfl
    simp [himage, survives]
  | bool x =>
    intro a b _ _
    have himage : store.reload parseDate (.bool x) = .bool x := by cases store <;> rfl
    simp [himage, survives]
  | num n =>
    intro a b _ _
    have htext : canonicalJson localeCompare (store.reload parseDate (.num n)) =
        canonicalJson localeCompare (.num n) := by cases n <;> cases store <;> rfl
    simp [htext, survives]
  | str s =>
    intro a b _ _
    rw [reload_str]
    cases hiso : isIsoDateString s <;> simp [survives, hiso, canonicalJson, quoted]
  | date d =>
    intro a b _ _
    cases d with
    | none =>
      have himage : store.reload parseDate (.date none) = .null := by cases store <;> rfl
      simp [himage, survives, canonicalJson]
    | some t =>
      have himage : store.reload parseDate (.date (some t)) =
          store.reload parseDate (.str (isoText t)) := by cases store <;> rfl
      rw [himage, reload_str]
      cases hiso : isIsoDateString (isoText t) <;> simp [survives, hiso, canonicalJson, quoted]
  | arr items ih =>
    intro a b _ _
    rw [safeKeys_arr] at hsafe
    rw [reload_arr, survives_arr]
    simp only [canonicalJson, canonicalItems_eq, List.map_map, List.cons_append, List.append_assoc,
      List.nil_append, List.cons.injEq, true_and]
    refine commaJoin_cancel (fun c hc => ?_) (fun v hv => ih v hv (hsafe v hv)) a b
    cases hc
    exact .inr (.inl rfl)
  | obj fields ih =>
    intro a b _ _
    rw [safeKeys_obj] at hsafe
    have hmembers : (∀ kv ∈ sortedMembers localeCompare fields, survives kv.2 = true) ↔
        survives (.obj fields) = true := by
      rw [survives_obj]
      simp only [sortedMembers, mem_sortBy, List.mem_filter, Bool.not_eq_true', and_imp]
    rw [reload_obj store parseDate hsafe.1, canonicalJson_obj, canonicalJson_obj,
      sortedMembers_reload, ← hmembers, List.map_map]
    simp only [List.cons_append, List.append_assoc, List.nil_append, List.cons.injEq, true_and]
    refine commaJoin_cancel (fun c hc => ?_) (fun kv hkv a b ha hb => ?_) a b
    · cases hc
      exact .inr (.inr rfl)
    · have hmem : kv ∈ fields := by
        simp only [sortedMembers, mem_sortBy, List.mem_filter] at hkv
        exact hkv.1
      simp only [memberText, Function.comp_apply, List.append_assoc, List.cons_append,
        List.append_cancel_left_eq, List.cons.injEq, true_and]
      exact ih kv hmem (hsafe.2 kv hmem) a b ha hb

/-- A value keeps its text exactly if it survives. -/
theorem canonicalJson_reload_iff {v : JsValue} (hsafe : safeKeys v = true) :
    canonicalJson localeCompare v = canonicalJson localeCompare (store.reload parseDate v) ↔
      survives v = true := by
  have hnil : Delimited [] := fun c hc => by cases hc
  simpa using canonicalJson_reload store parseDate hsafe [] [] hnil hnil

end Text

end Wazir.Goals
