import Wazir.Shared.OwnProperties
import Wazir.Shared.Throwing

/-! The canonical text of a definition and its digest (`graph/canonical.ts`). A value is rebuilt by
assigning its members one after the other, and assigning `__proto__` defines no member: the text
tells the value as long as there is none. -/

namespace Wazir.Goals.Canonical

open JsValue

/-! The code. -/

/-- `out[key] = value`; for `__proto__` that sets the prototype, if anything. -/
def assign (out : List (String × JsValue)) (member : String × JsValue) : List (String × JsValue) :=
  if member.1 = "__proto__" then out else defineMember out member

mutual
def normalize (depth : ℕ) (v : JsValue) : Except String JsValue :=
  if 128 < depth then .error "canonicalJson: value nested too deeply" else
    match v with
    | .null => .ok .null
    | .str s => .ok (.str s)
    | .bool b => .ok (.bool b)
    | .num (.finite q) => .ok (.num (.finite q))
    | .num _ => .error "canonicalJson: non-finite number"
    | .date (some t) => .ok (.str (isoText t))
    | .date none => .error "Invalid time value"
    | .arr items => (normalizeItems depth items).map .arr
    | .obj fields => do
      let members ← (sortKeys (normalizeFields depth fields)).mapM fun kr => kr.2.map (kr.1, ·)
      .ok (.obj (ownOrder (members.foldl assign [])))
    | .undefined => .error "canonicalJson: unsupported value of type undefined"
def normalizeItems (depth : ℕ) : List JsValue → Except String (List JsValue)
  | [] => .ok []
  | v :: rest => do
    let w ← (if v.isUndefined then .ok .null else normalize (depth + 1) v)
    let ws ← normalizeItems depth rest
    .ok (w :: ws)
/-- Each member that is defined, with what its value becomes. -/
def normalizeFields (depth : ℕ) :
    List (String × JsValue) → List (String × Except String JsValue)
  | [] => []
  | (key, v) :: rest =>
    if v.isUndefined then normalizeFields depth rest
    else (key, normalize (depth + 1) v) :: normalizeFields depth rest
end

def canonicalJson (value : JsValue) : Except String (List Char) :=
  (normalize 0 value).map jsonText

def graphDigest (sha256Hex : List Char → String) (definition : JsValue) : Except String String :=
  (canonicalJson definition).map sha256Hex

/-! What it should be. -/

/-- The values of JSON; a member of an object may also be undefined. -/
inductive IsJson (nearest : ℚ → JsNumber) : JsValue → Prop
  | null : IsJson nearest .null
  | bool (b : Bool) : IsJson nearest (.bool b)
  | num {q : ℚ} (hdecimal : IsDecimal q) (hnearest : nearest q = .finite q) :
    IsJson nearest (.num (.finite q))
  | str (s : String) : IsJson nearest (.str s)
  | arr {items : List JsValue} (hitems : ∀ v ∈ items, IsJson nearest v) :
    IsJson nearest (.arr items)
  | obj {fields : List (String × JsValue)} (hnodup : (fields.map Prod.fst).Nodup)
    (hfields : ∀ kv ∈ fields, kv.2.isUndefined = false → IsJson nearest kv.2) :
    IsJson nearest (.obj fields)

/-- Equal up to the order of the members of objects; a member that is undefined is none. -/
inductive Same : JsValue → JsValue → Prop
  | refl (v : JsValue) : Same v v
  | arr {xs ys : List JsValue} (hlen : xs.length = ys.length)
    (h : ∀ (i : ℕ) (_ : i < xs.length) (_ : i < ys.length), Same xs[i] ys[i]) :
    Same (.arr xs) (.arr ys)
  | obj {fs gs : List (String × JsValue)}
    (h : ∀ key, Same ((JsValue.obj fs).get key) ((JsValue.obj gs).get key)) :
    Same (.obj fs) (.obj gs)

/-- Somewhere in the value a member `__proto__` is defined. -/
inductive HasProto : JsValue → Prop
  | here {fields : List (String × JsValue)} {v : JsValue} (h : ("__proto__", v) ∈ fields)
    (hdefined : v.isUndefined = false) : HasProto (.obj fields)
  | item {items : List JsValue} {v : JsValue} (h : v ∈ items) (hv : HasProto v) :
    HasProto (.arr items)
  | member {fields : List (String × JsValue)} {kv : String × JsValue} (h : kv ∈ fields)
    (hv : HasProto kv.2) : HasProto (.obj fields)

mutual
/-- How many arrays and objects stand around the innermost value. -/
def nesting : JsValue → ℕ
  | .arr items => nestingItems items
  | .obj fields => nestingFields fields
  | _ => 0
def nestingItems : List JsValue → ℕ
  | [] => 0
  | v :: rest => max (nesting v + 1) (nestingItems rest)
def nestingFields : List (String × JsValue) → ℕ
  | [] => 0
  | (_, v) :: rest =>
    if v.isUndefined then nestingFields rest else max (nesting v + 1) (nestingFields rest)
end

/-! What a value becomes. -/

mutual
/-- The value that the canonical text is written for. -/
def normal : JsValue → JsValue
  | .arr items => .arr (normalItems items)
  | .obj fields => .obj (arranged (normalFields fields))
  | v => v
def normalItems : List JsValue → List JsValue
  | [] => []
  | v :: rest => normal v :: normalItems rest
def normalFields : List (String × JsValue) → List (String × JsValue)
  | [] => []
  | (key, v) :: rest =>
    if v.isUndefined ∨ key = "__proto__" then normalFields rest
    else (key, normal v) :: normalFields rest
end

theorem normalItems_eq (items : List JsValue) : normalItems items = items.map normal := by
  induction items with
  | nil => rfl
  | cons v rest ih => rw [normalItems, ih, List.map_cons]

def isDefined (kv : String × JsValue) : Bool := !kv.2.isUndefined

def isNamed (kv : String × JsValue) : Bool := kv.1 ≠ "__proto__"

theorem normalFields_eq (fields : List (String × JsValue)) : normalFields fields =
    ((fields.filter isDefined).map fun kv => (kv.1, normal kv.2)).filter isNamed := by
  induction fields with
  | nil => rfl
  | cons kv rest ih =>
    obtain ⟨key, v⟩ := kv
    rw [normalFields, ih]
    cases hv : v.isUndefined with
    | true => simp [isDefined, hv]
    | false => by_cases hkey : key = "__proto__" <;> simp [isDefined, isNamed, hv, hkey]

theorem normalizeFields_eq (depth : ℕ) (fields : List (String × JsValue)) :
    normalizeFields depth fields =
      (fields.filter isDefined).map fun kv => (kv.1, normalize (depth + 1) kv.2) := by
  induction fields with
  | nil => rfl
  | cons kv rest ih =>
    obtain ⟨key, v⟩ := kv
    rw [normalizeFields, ih]
    cases hv : v.isUndefined <;> simp [isDefined, hv]

theorem nodup_filter {fields : List (String × JsValue)} (h : (fields.map Prod.fst).Nodup)
    (p : String × JsValue → Bool) : ((fields.filter p).map Prod.fst).Nodup :=
  h.sublist (List.filter_sublist.map Prod.fst)

theorem map_fst_pair {α β : Type} (f : α → β) (fields : List (String × α)) :
    (fields.map fun kv => (kv.1, f kv.2)).map Prod.fst = fields.map Prod.fst := by
  rw [List.map_map]
  rfl

theorem foldl_assign (members out : List (String × JsValue)) :
    members.foldl assign out = (members.filter isNamed).foldl defineMember out := by
  induction members generalizing out with
  | nil => rfl
  | cons kv rest ih =>
    rw [List.foldl_cons, ih, assign]
    by_cases hkey : kv.1 = "__proto__"
    · rw [if_pos hkey, List.filter_cons_of_neg (by simp [isNamed, hkey])]
    · rw [if_neg hkey, List.filter_cons_of_pos (by simp [isNamed, hkey]), List.foldl_cons]

variable {depth : ℕ}

/-- An object is put together from what its members become. -/
theorem members_normal {fields : List (String × JsValue)} (hnodup : (fields.map Prod.fst).Nodup)
    (h : ∀ kv ∈ fields, kv.2.isUndefined = false → normalize (depth + 1) kv.2 = .ok (normal kv.2)) :
    (do
      let members ← (sortKeys (normalizeFields depth fields)).mapM fun kr => kr.2.map (kr.1, ·)
      Except.ok (JsValue.obj (ownOrder (members.foldl assign [])))) =
      (.ok (normal (.obj fields)) : Except String JsValue) := by
  have hdefined := nodup_filter hnodup isDefined
  have hmembers : (sortKeys (normalizeFields depth fields)).mapM (fun kr => kr.2.map (kr.1, ·)) =
      .ok (sortKeys ((fields.filter isDefined).map fun kv => (kv.1, normal kv.2))) := by
    rw [normalizeFields_eq, sortKeys_map, sortKeys_map, List.mapM_map]
    refine mapM_ok_map fun kv hkv => ?_
    obtain ⟨hmem, hdef⟩ := List.mem_filter.mp ((sortKeys_perm _).mem_iff.mp hkv)
    have hkv' := h kv hmem (by simpa [isDefined] using hdef)
    simp only [Function.comp_apply, hkv']
    rfl
  have hkeys : (((fields.filter isDefined).map fun kv => (kv.1, normal kv.2)).map Prod.fst).Nodup := by
    rwa [map_fst_pair]
  have hsorted : (sortKeys ((fields.filter isDefined).map fun kv => (kv.1, normal kv.2))).foldl
      assign [] = sortKeys (normalFields fields) := by
    have hnamed : ((sortKeys (normalFields fields)).map Prod.fst).Nodup := by
      rw [normalFields_eq]
      exact ((sortKeys_perm _).map Prod.fst).nodup_iff.mpr (nodup_filter hkeys _)
    rw [foldl_assign, sortKeys_filter hkeys, ← normalFields_eq,
      foldl_defineMember _ [] (by simpa using hnamed), List.nil_append]
  rw [hmembers, normal, arranged, ← hsorted]
  rfl

theorem normalizeItems_ok {items : List JsValue} (hdefined : ∀ v ∈ items, v.isUndefined = false)
    (h : ∀ v ∈ items, normalize (depth + 1) v = .ok (normal v)) :
    normalizeItems depth items = .ok (normalItems items) := by
  induction items with
  | nil => rfl
  | cons v rest ih =>
    obtain ⟨hv, hrest⟩ := List.forall_mem_cons.mp h
    obtain ⟨hdef, hdefs⟩ := List.forall_mem_cons.mp hdefined
    rw [normalizeItems, if_neg (by simp [hdef]), hv, ih hdefs hrest]
    rfl

variable {v : JsValue}

theorem nesting_item {items : List JsValue} (h : v ∈ items) :
    nesting v + 1 ≤ nestingItems items := by
  induction items with
  | nil => cases h
  | cons w rest ih =>
    rw [nestingItems]
    rcases List.mem_cons.mp h with rfl | hrest
    · exact le_max_left _ _
    · exact (ih hrest).trans (le_max_right _ _)

variable {kv : String × JsValue}

theorem nesting_member {fields : List (String × JsValue)} (h : kv ∈ fields)
    (hdef : kv.2.isUndefined = false) : nesting kv.2 + 1 ≤ nestingFields fields := by
  induction fields with
  | nil => cases h
  | cons kv' rest ih =>
    obtain ⟨key, w⟩ := kv'
    rw [nestingFields]
    rcases List.mem_cons.mp h with rfl | hrest
    · rw [if_neg (by simp [hdef])]
      exact le_max_left _ _
    · split_ifs
      · exact ih hrest
      · exact (ih hrest).trans (le_max_right _ _)

theorem exists_item {items : List JsValue} {n : ℕ} (h : n < nestingItems items) :
    ∃ v ∈ items, n < nesting v + 1 := by
  induction items with
  | nil => cases h
  | cons w rest ih =>
    rw [nestingItems, lt_max_iff] at h
    rcases h with h | h
    · exact ⟨w, List.mem_cons_self, h⟩
    · obtain ⟨v, hv, hlt⟩ := ih h
      exact ⟨v, List.mem_cons_of_mem _ hv, hlt⟩

theorem exists_member {fields : List (String × JsValue)} {n : ℕ} (h : n < nestingFields fields) :
    ∃ kv ∈ fields, kv.2.isUndefined = false ∧ n < nesting kv.2 + 1 := by
  induction fields with
  | nil => cases h
  | cons kv rest ih =>
    obtain ⟨key, w⟩ := kv
    rw [nestingFields] at h
    cases hw : w.isUndefined with
    | true =>
      rw [if_pos hw] at h
      obtain ⟨kv, hkv, hlt⟩ := ih h
      exact ⟨kv, List.mem_cons_of_mem _ hkv, hlt⟩
    | false =>
      rw [if_neg (by simp [hw]), lt_max_iff] at h
      rcases h with h | h
      · exact ⟨_, List.mem_cons_self, hw, h⟩
      · obtain ⟨kv, hkv, hlt⟩ := ih h
        exact ⟨kv, List.mem_cons_of_mem _ hkv, hlt⟩

variable {nearest : ℚ → JsNumber}

theorem IsJson.defined (h : IsJson nearest v) : v.isUndefined = false := by
  cases h <;> rfl

theorem normalize_ok (h : IsJson nearest v) (hdepth : depth + nesting v ≤ 128) :
    normalize depth v = .ok (normal v) := by
  induction h generalizing depth with
  | null | str _ | bool _ | num _ _ =>
    rw [normalize, if_neg (by omega)]
    rfl
  | @arr items hitems ih =>
    rw [nesting] at hdepth
    have hnormal : normalizeItems depth items = .ok (normalItems items) :=
      normalizeItems_ok (fun v hv => (hitems v hv).defined) fun v hv => ih v hv (by
        have := nesting_item hv
        omega)
    rw [normalize, if_neg (by omega), hnormal, normal]
    rfl
  | @obj fields hnodup hfields ih =>
    rw [nesting] at hdepth
    rw [normalize, if_neg (by omega)]
    exact members_normal hnodup fun kv hkv hdef => ih kv hkv hdef (by
      have := nesting_member hkv hdef
      omega)

theorem normalizeItems_error {items : List JsValue}
    (h : ∃ v ∈ items, v.isUndefined = false ∧ ∃ e, normalize (depth + 1) v = .error e) :
    ∃ e, normalizeItems depth items = .error e := by
  induction items with
  | nil =>
    obtain ⟨v, hv, -⟩ := h
    cases hv
  | cons w rest ih =>
    rw [normalizeItems]
    cases hw : (if w.isUndefined then .ok .null else normalize (depth + 1) w : Except String JsValue)
      with
    | error e => exact ⟨e, rfl⟩
    | ok w' =>
      obtain ⟨v, hv, hdef, e, he⟩ := h
      have hne : v ≠ w := by
        rintro rfl
        rw [if_neg (by simp [hdef]), he] at hw
        cases hw
      obtain ⟨e', he'⟩ := ih ⟨v, (List.mem_cons.mp hv).resolve_left hne, hdef, e, he⟩
      exact ⟨e', by rw [he']; rfl⟩

theorem normalize_deep (h : IsJson nearest v) (hdepth : 128 < depth + nesting v) :
    ∃ e, normalize depth v = .error e := by
  induction h generalizing depth with
  | null | str _ | bool _ | num _ _ =>
    rw [normalize, if_pos (by simpa [nesting] using hdepth)]
    exact ⟨_, rfl⟩
  | @arr items hitems ih =>
    rw [nesting] at hdepth
    rw [normalize]
    split_ifs with hdeep
    · exact ⟨_, rfl⟩
    · have hlt : 128 - depth < nestingItems items := by omega
      obtain ⟨v, hv, hnest⟩ := exists_item hlt
      have hdeeper : 128 < depth + 1 + nesting v := by omega
      obtain ⟨e, he⟩ := normalizeItems_error ⟨v, hv, (hitems v hv).defined, ih v hv hdeeper⟩
      exact ⟨e, by rw [he]; rfl⟩
  | @obj fields hnodup hfields ih =>
    rw [nesting] at hdepth
    rw [normalize]
    split_ifs with hdeep
    · exact ⟨_, rfl⟩
    · have hlt : 128 - depth < nestingFields fields := by omega
      obtain ⟨kv, hkv, hdef, hnest⟩ := exists_member hlt
      have hdeeper : 128 < depth + 1 + nesting kv.2 := by omega
      obtain ⟨e, he⟩ := ih kv hkv hdef hdeeper
      have hmember : (kv.1, normalize (depth + 1) kv.2) ∈ sortKeys (normalizeFields depth fields) := by
        rw [(sortKeys_perm _).mem_iff, normalizeFields_eq]
        exact List.mem_map.mpr ⟨kv, List.mem_filter.mpr ⟨hkv, by simp [isDefined, hdef]⟩, rfl⟩
      have hfails : ∃ kr ∈ sortKeys (normalizeFields depth fields), ∃ e,
          kr.2.map (kr.1, ·) = .error e := ⟨_, hmember, e, by rw [he]; rfl⟩
      obtain ⟨e', he'⟩ := mapM_error hfails
      exact ⟨e', by simp only [he']; rfl⟩

/-! The text stands for the value that it was written for. -/

theorem normalFields_nodup {fields : List (String × JsValue)}
    (h : (fields.map Prod.fst).Nodup) : ((normalFields fields).map Prod.fst).Nodup := by
  rw [normalFields_eq]
  refine nodup_filter ?_ _
  rw [map_fst_pair]
  exact nodup_filter h _

theorem mem_normalFields {fields : List (String × JsValue)} :
    kv ∈ normalFields fields ↔ ∃ v, (kv.1, v) ∈ fields ∧ v.isUndefined = false ∧
      kv.1 ≠ "__proto__" ∧ kv.2 = normal v := by
  rw [normalFields_eq, List.mem_filter, List.mem_map]
  constructor
  · rintro ⟨⟨kv', hkv', rfl⟩, hname⟩
    obtain ⟨hmem, hdef⟩ := List.mem_filter.mp hkv'
    exact ⟨kv'.2, hmem, by simpa [isDefined] using hdef, by simpa [isNamed] using hname, rfl⟩
  · rintro ⟨v, hmem, hdef, hname, hv⟩
    refine ⟨⟨(kv.1, v), List.mem_filter.mpr ⟨hmem, by simp [isDefined, hdef]⟩, ?_⟩, ?_⟩
    · rw [← hv]
    · simp [isNamed, hname]

theorem readable_normal (h : IsJson nearest v) : Readable nearest (normal v) := by
  induction h with
  | null => exact .null
  | bool b => exact .bool b
  | num hdecimal hnearest => exact .num hdecimal hnearest
  | str s => exact .str s
  | @arr items hitems ih =>
    rw [normal, normalItems_eq]
    refine .arr fun w hw => ?_
    obtain ⟨v, hv, rfl⟩ := List.mem_map.mp hw
    exact ih v hv
  | @obj fields hnodup hfields ih =>
    rw [normal]
    have hperm := arranged_perm (normalFields fields)
    refine .obj ((hperm.map Prod.fst).nodup_iff.mpr (normalFields_nodup hnodup))
      (ownOrder_ownOrder _) fun kv hkv => ?_
    obtain ⟨v, hmem, hdef, -, hv⟩ := mem_normalFields.mp (hperm.mem_iff.mp hkv)
    rw [hv]
    exact ih (kv.1, v) hmem hdef

/-- The text of a value that does not nest too deeply. -/
theorem canonicalJson_ok (h : IsJson nearest v) (hdepth : nesting v ≤ 128) :
    canonicalJson v = .ok (normal v).jsonText := by
  rw [canonicalJson, normalize_ok h (by omega)]
  rfl

theorem canonicalJson_deep (h : IsJson nearest v) (hdepth : 128 < nesting v) :
    ∃ e, canonicalJson v = .error e := by
  obtain ⟨e, he⟩ := normalize_deep h (show 128 < 0 + nesting v by omega)
  exact ⟨e, by rw [canonicalJson, he]; rfl⟩

/-! Values that are the same. -/

variable {a b : JsValue}

theorem Same.symm (h : Same a b) : Same b a := by
  induction h with
  | refl v => exact .refl v
  | arr hlen _ ih => exact .arr hlen.symm fun i hy hx => ih i hx hy
  | obj _ ih => exact .obj ih

theorem Same.trans {a b c : JsValue} (hab : Same a b) (hbc : Same b c) : Same a c := by
  induction hab generalizing c with
  | refl v => exact hbc
  | @arr xs ys hlen h ih =>
    cases hbc with
    | refl => exact .arr hlen h
    | @arr _ zs hlen' h' =>
      exact .arr (hlen.trans hlen') fun i hx hz => ih i hx (by omega) (h' i (by omega) hz)
  | @obj fs gs h ih =>
    cases hbc with
    | refl => exact .obj h
    | obj h' => exact .obj fun key => ih key (h' key)

theorem Same.get (h : Same a b) (key : String) : Same (a.get key) (b.get key) := by
  cases h with
  | refl => exact .refl _
  | arr => exact .refl _
  | obj h => exact h key

theorem Same.items {xs ys : List JsValue} (h : Same (.arr xs) (.arr ys)) :
    xs.length = ys.length ∧
      ∀ (i : ℕ) (_ : i < xs.length) (_ : i < ys.length), Same xs[i] ys[i] := by
  cases h with
  | refl => exact ⟨rfl, fun _ _ _ => .refl _⟩
  | arr hlen h => exact ⟨hlen, h⟩

theorem Same.undefined_left (h : Same .undefined v) : v = .undefined := by
  cases h
  rfl

theorem isUndefined_iff : v.isUndefined = true ↔ v = .undefined := by
  cases v <;> simp [isUndefined]

section Members

variable {fields other : List (String × JsValue)}

theorem get_of_mem (hnodup : (fields.map Prod.fst).Nodup) (h : kv ∈ fields) :
    (JsValue.obj fields).get kv.1 = kv.2 := by
  rw [get_obj, (lookup_eq_some_mem hnodup).mpr h, Option.getD_some]

theorem mem_of_get {key : String} (h : ((JsValue.obj fields).get key).isUndefined = false) :
    (key, (JsValue.obj fields).get key) ∈ fields := by
  rw [get_obj] at *
  cases hlookup : fields.lookup key with
  | none =>
    rw [hlookup] at h
    cases h
  | some v => exact mem_of_lookup hlookup

theorem get_normalFields (hnodup : (fields.map Prod.fst).Nodup) (key : String) :
    (JsValue.obj (normalFields fields)).get key =
      if key = "__proto__" then .undefined else normal ((JsValue.obj fields).get key) := by
  cases hnormal : ((JsValue.obj (normalFields fields)).get key).isUndefined with
  | false =>
    obtain ⟨v, hmem, -, hname, hv⟩ := mem_normalFields.mp (mem_of_get hnormal)
    have hget : (JsValue.obj fields).get key = v := get_of_mem hnodup hmem
    rw [if_neg hname, hget, ← hv]
  | true =>
    rw [isUndefined_iff.mp hnormal]
    split_ifs with hname
    · rfl
    · cases hdef : ((JsValue.obj fields).get key).isUndefined with
      | true =>
        rw [isUndefined_iff.mp hdef]
        rfl
      | false =>
        have hmem : (key, normal ((JsValue.obj fields).get key)) ∈ normalFields fields :=
          mem_normalFields.mpr ⟨_, mem_of_get hdef, hdef, hname, rfl⟩
        exact (isUndefined_iff.mp hnormal).symm.trans (get_of_mem (normalFields_nodup hnodup) hmem)

theorem get_normal (hnodup : (fields.map Prod.fst).Nodup) (key : String) :
    (normal (.obj fields)).get key =
      if key = "__proto__" then .undefined else normal ((JsValue.obj fields).get key) := by
  have hperm := arranged_perm (normalFields fields)
  rw [normal, get_obj, lookup_perm hperm ((hperm.map Prod.fst).nodup_iff.mpr
    (normalFields_nodup hnodup)), ← get_obj, get_normalFields hnodup]

theorem normal_defined (h : v.isUndefined = false) :
    (normal v).isUndefined = false := by
  cases v <;> first | rfl | cases h

/-- Objects whose members are defined are told apart by what their keys give. -/
theorem perm_of_get (hfields : (fields.map Prod.fst).Nodup) (hother : (other.map Prod.fst).Nodup)
    (hdef : ∀ kv ∈ fields, kv.2.isUndefined = false)
    (hdef' : ∀ kv ∈ other, kv.2.isUndefined = false)
    (h : ∀ key, (JsValue.obj fields).get key = (JsValue.obj other).get key) :
    fields.Perm other := by
  have hsub : ∀ l m : List (String × JsValue), (l.map Prod.fst).Nodup →
      (∀ kv ∈ l, kv.2.isUndefined = false) →
      (∀ key, (JsValue.obj l).get key = (JsValue.obj m).get key) → ∀ kv ∈ l, kv ∈ m := by
    intro l m hl hldef hget kv hkv
    have hvalue : (JsValue.obj m).get kv.1 = kv.2 := by rw [← hget, get_of_mem hl hkv]
    have hdefined : ((JsValue.obj m).get kv.1).isUndefined = false := by
      rw [hvalue]
      exact hldef kv hkv
    have hmem := mem_of_get hdefined
    rwa [hvalue] at hmem
  exact (List.perm_ext_iff_of_nodup hfields.of_map hother.of_map).mpr fun kv =>
    ⟨hsub fields other hfields hdef h kv, hsub other fields hother hdef' (fun key => (h key).symm) kv⟩

end Members

/-- The value that the text is written for is the one given, unless that has a member
`__proto__`. -/
theorem same_normal (h : IsJson nearest v) (hproto : ¬ HasProto v) :
    Same (normal v) v := by
  induction h with
  | null | str _ | bool _ | num _ _ => exact .refl _
  | @arr items hitems ih =>
    rw [normal, normalItems_eq]
    refine .arr (by simp) fun i hi hi' => ?_
    rw [List.getElem_map]
    exact ih _ (List.getElem_mem hi') fun hp => hproto (.item (List.getElem_mem hi') hp)
  | @obj fields hnodup hfields ih =>
    have hget : ∀ key, Same ((normal (.obj fields)).get key) ((JsValue.obj fields).get key) := by
      intro key
      rw [get_normal hnodup]
      cases hdef : ((JsValue.obj fields).get key).isUndefined with
      | true =>
        rw [isUndefined_iff.mp hdef]
        split_ifs <;> exact .refl _
      | false =>
        have hmem := mem_of_get hdef
        have hname : key ≠ "__proto__" := by
          rintro rfl
          exact hproto (.here hmem hdef)
        rw [if_neg hname]
        exact ih _ hmem hdef fun hp => hproto (.member hmem hp)
    rw [normal] at hget ⊢
    exact .obj hget

theorem HasProto.defined (h : HasProto v) : v.isUndefined = false := by
  cases h <;> rfl

theorem noProto_of_same (h : IsJson nearest v) (hsame : Same (normal v) v) :
    ¬ HasProto v := by
  induction h with
  | null | str _ | bool _ | num _ _ => rintro ⟨⟩
  | @arr items hitems ih =>
    rintro (_ | ⟨hv, hproto⟩ | _)
    obtain ⟨i, hi, rfl⟩ := List.getElem_of_mem hv
    rw [normal, normalItems_eq] at hsame
    have hitem := hsame.items.2 i (by simpa using hi) hi
    rw [List.getElem_map] at hitem
    exact ih _ hv hitem hproto
  | @obj fields hnodup hfields ih =>
    have hmember : ∀ kv ∈ fields, kv.2.isUndefined = false →
        kv.1 ≠ "__proto__" ∧ Same (normal kv.2) kv.2 := by
      intro kv hkv hdef
      have hget := hsame.get kv.1
      rw [get_normal hnodup, get_of_mem hnodup hkv] at hget
      split_ifs at hget with hname
      · rw [hget.undefined_left] at hdef
        cases hdef
      · exact ⟨hname, hget⟩
    rintro (⟨hmem, hdef⟩ | _ | ⟨hmem, hproto⟩)
    · exact (hmember _ hmem hdef).1 rfl
    · exact ih _ hmem hproto.defined (hmember _ hmem hproto.defined).2 hproto

/-- Only one value is written for values that are the same. -/
theorem normal_unique (ha : IsJson nearest a) (hb : IsJson nearest b)
    (h : Same (normal a) (normal b)) : normal a = normal b := by
  induction ha generalizing b with
  | null | str _ | bool _ | num _ _ =>
    generalize normal b = w at h ⊢
    cases h
    rfl
  | @arr items hitems ih =>
    cases hb with
    | null | str _ | bool _ | num _ _ | obj _ _ => cases h
    | @arr items' hitems' =>
      rw [normal, normal, normalItems_eq, normalItems_eq] at h ⊢
      obtain ⟨hlen, hsame⟩ := h.items
      congr 1
      refine List.ext_getElem hlen fun i hi hi' => ?_
      have hitem := hsame i hi hi'
      rw [List.getElem_map, List.getElem_map] at hitem ⊢
      exact ih _ (List.getElem_mem _) (hitems' _ (List.getElem_mem _)) hitem
  | @obj fields hnodup hfields ih =>
    cases hb with
    | null | str _ | bool _ | num _ _ | arr _ => cases h
    | @obj other hnodup' hother =>
      have hget : ∀ key, (JsValue.obj (normalFields fields)).get key =
          (JsValue.obj (normalFields other)).get key := by
        intro key
        have hkey := h.get key
        rw [get_normal hnodup, get_normal hnodup'] at hkey
        rw [get_normalFields hnodup, get_normalFields hnodup']
        split_ifs at hkey ⊢
        · rfl
        · cases hdef : ((JsValue.obj fields).get key).isUndefined with
          | true =>
            rw [isUndefined_iff.mp hdef] at hkey ⊢
            exact hkey.undefined_left.symm
          | false =>
            cases hdef' : ((JsValue.obj other).get key).isUndefined with
            | true =>
              rw [isUndefined_iff.mp hdef'] at hkey ⊢
              exact hkey.symm.undefined_left
            | false => exact ih _ (mem_of_get hdef) hdef (hother _ (mem_of_get hdef') hdef') hkey
      have hdefined : ∀ (l : List (String × JsValue)), ∀ kv ∈ normalFields l,
          kv.2.isUndefined = false := by
        intro l kv hkv
        obtain ⟨v, -, hdef, -, hv⟩ := mem_normalFields.mp hkv
        rw [hv]
        exact normal_defined hdef
      rw [normal, normal, arranged_congr (perm_of_get (normalFields_nodup hnodup)
        (normalFields_nodup hnodup') (hdefined _) (hdefined _) hget) (normalFields_nodup hnodup)]

/-! What the text and the digest tell. -/

/-- For two values that have a text each: it is one text exactly if they are the same, each can be
read back from its text, and values that share a digest are the same or the hash collides. -/
def Faithful (nearest : ℚ → JsNumber) (sha256Hex : List Char → String) (a b : JsValue) : Prop :=
  ∀ ta tb, canonicalJson a = .ok ta → canonicalJson b = .ok tb →
    (ta = tb ↔ Same a b) ∧
    (∃ v, parseJson nearest ta = some v ∧ Same v a) ∧
    (∃ v, parseJson nearest tb = some v ∧ Same v b) ∧
    (graphDigest sha256Hex a = graphDigest sha256Hex b →
      Same a b ∨ ta ≠ tb ∧ sha256Hex ta = sha256Hex tb)

theorem faithful_of_noProto (ha : IsJson nearest a) (hb : IsJson nearest b) (hpa : ¬ HasProto a)
    (hpb : ¬ HasProto b) (hda : nesting a ≤ 128) (hdb : nesting b ≤ 128)
    (sha256Hex : List Char → String) : Faithful nearest sha256Hex a b := by
  intro ta tb hta htb
  rw [canonicalJson_ok ha hda] at hta
  rw [canonicalJson_ok hb hdb] at htb
  cases hta
  cases htb
  have hreada := parseJson_jsonText (readable_normal ha)
  have hreadb := parseJson_jsonText (readable_normal hb)
  have hsamea := same_normal ha hpa
  have hsameb := same_normal hb hpb
  have htext : (normal a).jsonText = (normal b).jsonText ↔ Same a b := by
    constructor
    · intro htext
      rw [htext, hreadb] at hreada
      have hnormal : normal a = normal b := (Option.some.inj hreada).symm
      exact hsamea.symm.trans (hnormal ▸ hsameb)
    · intro hsame
      rw [normal_unique ha hb (hsamea.trans (hsame.trans hsameb.symm))]
  refine ⟨htext, ⟨_, hreada, hsamea⟩, ⟨_, hreadb, hsameb⟩, fun hdigest => ?_⟩
  rw [graphDigest, graphDigest, canonicalJson_ok ha hda, canonicalJson_ok hb hdb] at hdigest
  by_cases heq : (normal a).jsonText = (normal b).jsonText
  · exact .inl (htext.mp heq)
  · exact .inr ⟨heq, Except.ok.inj hdigest⟩

/-- The text and the digest are faithful exactly if no member is named `__proto__`, as far as the
values are not nested too deeply for a text. -/
theorem canonicalJson_faithful_iff (nearest : ℚ → JsNumber) (sha256Hex : List Char → String)
    {a b : JsValue} (ha : IsJson nearest a) (hb : IsJson nearest b) :
    Faithful nearest sha256Hex a b ↔
      128 < nesting a ∨ 128 < nesting b ∨ ¬ HasProto a ∧ ¬ HasProto b := by
  constructor
  · intro h
    by_cases hda : 128 < nesting a
    · exact .inl hda
    by_cases hdb : 128 < nesting b
    · exact .inr (.inl hdb)
    obtain ⟨-, ⟨va, hva, hsamea⟩, ⟨vb, hvb, hsameb⟩, -⟩ :=
      h _ _ (canonicalJson_ok ha (not_lt.mp hda)) (canonicalJson_ok hb (not_lt.mp hdb))
    rw [parseJson_jsonText (readable_normal ha)] at hva
    rw [parseJson_jsonText (readable_normal hb)] at hvb
    cases hva
    cases hvb
    exact .inr (.inr ⟨noProto_of_same ha hsamea, noProto_of_same hb hsameb⟩)
  · intro h ta tb hta htb
    have hshallow : ∀ {v : JsValue} {t : List Char}, IsJson nearest v → canonicalJson v = .ok t →
        nesting v ≤ 128 := by
      intro v t hv ht
      by_contra hdeep
      obtain ⟨e, he⟩ := canonicalJson_deep hv (not_le.mp hdeep)
      rw [he] at ht
      cases ht
    have hda := hshallow ha hta
    have hdb := hshallow hb htb
    obtain ⟨hpa, hpb⟩ := (h.resolve_left (by omega)).resolve_left (by omega)
    exact faithful_of_noProto ha hb hpa hpb hda hdb sha256Hex ta tb hta htb

/-- Two graphs: one names its inputs, the other adds a member `__proto__`. -/
def plainInputs : JsValue := .obj [("inputs", .obj [("10", .bool true), ("9", .null)])]

def protoInputs : JsValue :=
  .obj [("inputs", .obj [("9", .null), ("10", .bool true), ("__proto__", .str "x")])]

/-- The first, with its members the other way round. -/
def turnedInputs : JsValue := .obj [("inputs", .obj [("9", .null), ("10", .bool true)])]

theorem isJson_members {nearest : ℚ → JsNumber} {members : List (String × JsValue)}
    (hkeys : (members.map Prod.fst).Nodup) (h : ∀ kv ∈ members, IsJson nearest kv.2) :
    IsJson nearest (.obj [("inputs", .obj members)]) := by
  refine .obj (by simp) fun kv hkv _ => ?_
  rw [List.mem_singleton.mp hkv]
  exact .obj hkeys fun kv hkv _ => h kv hkv

theorem isJson_inputs {nearest : ℚ → JsNumber} : IsJson nearest plainInputs ∧
    IsJson nearest turnedInputs ∧ IsJson nearest protoInputs := by
  have hatom : IsJson nearest (.bool true) ∧ IsJson nearest .null ∧ IsJson nearest (.str "x") :=
    ⟨.bool true, .null, .str "x"⟩
  exact ⟨isJson_members (by decide) (by simp [hatom]), isJson_members (by decide) (by simp [hatom]),
    isJson_members (by decide) (by simp [hatom])⟩

theorem noProto_members {members : List (String × JsValue)}
    (hnames : ∀ kv ∈ members, kv.1 ≠ "__proto__")
    (hplain : ∀ kv ∈ members, ¬ HasProto kv.2) : ¬ HasProto (.obj [("inputs", .obj members)]) := by
  have hinputs : "__proto__" ≠ "inputs" := by decide
  rintro (⟨hmem, -⟩ | _ | ⟨hmem, hproto⟩)
  · exact hinputs (congrArg Prod.fst (List.mem_singleton.mp hmem))
  · cases List.mem_singleton.mp hmem
    rcases hproto with ⟨hmem, -⟩ | _ | ⟨hmem, hproto⟩
    · exact hnames _ hmem rfl
    · exact hplain _ hmem hproto

theorem plain_inputs_faithful : plainInputs ≠ turnedInputs ∧
    IsJson .finite plainInputs ∧ IsJson .finite turnedInputs ∧
    Faithful .finite String.ofList plainInputs turnedInputs := by
  have hatom : ¬ HasProto (.bool true) ∧ ¬ HasProto .null := ⟨nofun, nofun⟩
  have hplain : ¬ HasProto plainInputs := noProto_members (by decide) (by simp [hatom])
  have hturned : ¬ HasProto turnedInputs := noProto_members (by decide) (by simp [hatom])
  refine ⟨by simp [plainInputs, turnedInputs], isJson_inputs.1, isJson_inputs.2.1, ?_⟩
  exact (canonicalJson_faithful_iff .finite String.ofList isJson_inputs.1 isJson_inputs.2.1).mpr
    (.inr (.inr ⟨hplain, hturned⟩))

/-- The two have one text and one digest. -/
theorem proto_member_dropped :
    IsJson .finite plainInputs ∧ IsJson .finite protoInputs ∧
      canonicalJson plainInputs =
        .ok "\x7b\"inputs\":\x7b\"9\":null,\"10\":true\x7d\x7d".toList ∧
      ¬ Faithful .finite String.ofList plainInputs protoInputs := by
  have hplain : canonicalJson plainInputs =
      .ok "\x7b\"inputs\":\x7b\"9\":null,\"10\":true\x7d\x7d".toList := by decide
  have hproto : canonicalJson protoInputs =
      .ok "\x7b\"inputs\":\x7b\"9\":null,\"10\":true\x7d\x7d".toList := by decide
  refine ⟨isJson_inputs.1, isJson_inputs.2.2, hplain, fun hfaithful => ?_⟩
  have hsame := ((hfaithful _ _ hplain hproto).1.mp rfl).get "inputs"
  have hmember := hsame.get "__proto__"
  cases hmember.undefined_left

end Wazir.Goals.Canonical
