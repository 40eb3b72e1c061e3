import Wazir.Shared.OwnProperties

/-! Maps and plain objects: entries with distinct keys, in the order in which they came. -/

namespace Wazir

/-- The entries of a `Map`, or the own properties of an object. -/
structure KeyedMap (α : Type) where
  entries : List (String × α)
  distinct : (entries.map Prod.fst).Nodup

theorem keys_defineMember {α : Type} (fields : List (String × α)) (member : String × α) :
    (defineMember fields member).map Prod.fst =
      if member.1 ∈ fields.map Prod.fst then fields.map Prod.fst
      else fields.map Prod.fst ++ [member.1] := by
  rw [defineMember]
  by_cases h : member.1 ∈ fields.map Prod.fst
  · rw [if_pos h, if_pos h, List.map_map]
    refine List.map_congr_left fun kv _ => ?_
    by_cases hkv : kv.1 = member.1
    · simp [hkv]
    · simp [hkv]
  · rw [if_neg h, if_neg h, List.map_append]
    rfl

theorem lookup_single {α : Type} (name : String) (value : α) (key : String) :
    [(name, value)].lookup key = if key = name then some value else none := by
  by_cases h : key = name
  · simp [h]
  · rw [List.lookup_cons, show (key == name) = false by simpa using h, if_neg h]
    rfl

theorem lookup_defineMember {α : Type} (fields : List (String × α)) (member : String × α)
    (key : String) : (defineMember fields member).lookup key =
      if key = member.1 then some member.2 else fields.lookup key := by
  obtain ⟨name, value⟩ := member
  rw [defineMember]
  by_cases h : name ∈ fields.map Prod.fst
  · rw [if_pos h]
    induction fields with
    | nil => cases h
    | cons kv rest ih =>
      obtain ⟨k, v⟩ := kv
      by_cases hk : k = name
      · subst hk
        by_cases hkey : key = k
        · simp [hkey]
        · have hbeq : (key == k) = false := by simpa using hkey
          by_cases hrest : k ∈ rest.map Prod.fst
          · simpa [List.lookup_cons, hbeq, hkey] using ih hrest
          · have hsame : rest.map (fun kv => if kv.1 = k then (k, value) else kv) = rest := by
              refine (List.map_congr_left fun kv hkv => if_neg ?_).trans (List.map_id rest)
              rintro rfl
              exact hrest (List.mem_map_of_mem hkv)
            simp only [List.map_cons, if_true, List.lookup_cons, hbeq, hkey, if_false, hsame]
      · have hrest : name ∈ rest.map Prod.fst := by
          simpa [Ne.symm hk] using h
        rw [List.map_cons, if_neg hk, List.lookup_cons, List.lookup_cons, ih hrest]
        by_cases hkey : key = k
        · simp [hkey, hk]
        · simp [show (key == k) = false by simpa using hkey]
  · rw [if_neg h]
    induction fields with
    | nil => exact lookup_single name value key
    | cons kv rest ih =>
      obtain ⟨k, v⟩ := kv
      have hrest : name ≠ k ∧ name ∉ rest.map Prod.fst := by simpa using h
      rw [List.cons_append, List.lookup_cons, List.lookup_cons, ih hrest.2]
      by_cases hkey : key = k
      · simp [hkey, Ne.symm hrest.1]
      · simp [show (key == k) = false by simpa using hkey]

theorem defineMember_map {α β : Type} (f : α → β) (fields : List (String × α)) (member : String × α) :
    (defineMember fields member).map (fun kv => (kv.1, f kv.2)) =
      defineMember (fields.map fun kv => (kv.1, f kv.2)) (member.1, f member.2) := by
  have hkeys : (fields.map fun kv => (kv.1, f kv.2)).map Prod.fst = fields.map Prod.fst := by
    rw [List.map_map]
    rfl
  rw [defineMember, defineMember, hkeys]
  split_ifs with h
  · rw [List.map_map, List.map_map]
    refine List.map_congr_left fun kv _ => ?_
    by_cases hkv : kv.1 = member.1
    · simp [hkv]
    · simp [hkv]
  · rw [List.map_append]
    rfl

/-- What is defined last stands. -/
theorem defineMember_defineMember {α : Type} (fields : List (String × α)) (key : String) (a b : α) :
    defineMember (defineMember fields (key, a)) (key, b) = defineMember fields (key, b) := by
  have hmem : key ∈ (defineMember fields (key, a)).map Prod.fst := by
    rw [keys_defineMember]
    split_ifs with h
    · exact h
    · simp
  rw [defineMember, if_pos hmem, defineMember, defineMember]
  split_ifs with h
  · rw [List.map_map]
    refine List.map_congr_left fun kv _ => ?_
    by_cases hkv : kv.1 = key
    · simp [hkv]
    · simp [hkv]
  · have hkeep : fields.map (fun kv => if kv.1 = key then (key, b) else kv) = fields := by
      refine (List.map_congr_left fun kv hkv => if_neg ?_).trans (List.map_id fields)
      intro heq
      exact h (List.mem_map.mpr ⟨kv, hkv, heq⟩)
    rw [List.map_append, hkeep]
    simp

namespace KeyedMap

variable {α β : Type}

def empty : KeyedMap α := ⟨[], List.nodup_nil⟩

def get (m : KeyedMap α) (key : String) : Option α := m.entries.lookup key

def has (m : KeyedMap α) (key : String) : Bool := (m.get key).isSome

def keys (m : KeyedMap α) : List String := m.entries.map Prod.fst

/-- `map.set(key, value)`; a key that exists keeps its place. -/
def set (m : KeyedMap α) (key : String) (value : α) : KeyedMap α where
  entries := defineMember m.entries (key, value)
  distinct := by
    rw [keys_defineMember]
    split_ifs with h
    · exact m.distinct
    · exact List.nodup_append.mpr ⟨m.distinct, by simp, fun a ha b hb heq => h (by simp_all)⟩

/-- `map.delete(key)` -/
def delete (m : KeyedMap α) (key : String) : KeyedMap α where
  entries := m.entries.filter fun kv => kv.1 ≠ key
  distinct := m.distinct.sublist (List.filter_sublist.map _)

/-- What a predicate keeps of the entries. -/
def filter (m : KeyedMap α) (p : String × α → Bool) : KeyedMap α where
  entries := m.entries.filter p
  distinct := m.distinct.sublist (List.filter_sublist.map _)

/-- `object[key] = value` for a value that is no object: the prototype stays what it is. -/
def assign (m : KeyedMap α) (key : String) (value : α) : KeyedMap α :=
  if key = "__proto__" then m else m.set key value

/-- `Object.entries(object)` -/
def ownEntries (m : KeyedMap α) : List (String × α) := ownOrder m.entries

/-- `Object.values(object)` -/
def ownValues (m : KeyedMap α) : List α := m.ownEntries.map Prod.snd

@[simp] theorem get_empty (key : String) : (empty : KeyedMap α).get key = none := rfl

@[simp] theorem get_set (m : KeyedMap α) (key : String) (value : α) (k : String) :
    (m.set key value).get k = if k = key then some value else m.get k :=
  lookup_defineMember m.entries (key, value) k

@[simp] theorem get_delete (m : KeyedMap α) (key k : String) :
    (m.delete key).get k = if k = key then none else m.get k :=
  lookup_filter_ne

theorem mem_entries (m : KeyedMap α) {key : String} {value : α} :
    (key, value) ∈ m.entries ↔ m.get key = some value :=
  (lookup_eq_some_mem m.distinct).symm

theorem get_filter (m : KeyedMap α) (p : String × α → Bool) (key : String) :
    (m.filter p).get key = (m.get key).filter fun value => p (key, value) := by
  refine Option.ext fun value => ?_
  rw [← mem_entries, Option.filter_eq_some_iff, ← mem_entries]
  exact List.mem_filter

theorem mem_keys_set (m : KeyedMap α) {key k : String} {value : α} :
    k ∈ (m.set key value).keys ↔ k = key ∨ k ∈ m.keys := by
  rw [keys, set, keys_defineMember]
  split_ifs with h
  · exact ⟨.inr, fun hk => hk.elim (fun heq => heq ▸ h) id⟩
  · simp [keys, or_comm]

theorem mem_keys (m : KeyedMap α) {key : String} : key ∈ m.keys ↔ m.has key = true := by
  rw [has, Option.isSome_iff_ne_none, get, ne_eq, lookup_eq_none_mem, not_not, keys]

theorem keys_filter (m : KeyedMap α) {p : String × α → Bool} {key : String}
    (h : key ∈ (m.filter p).keys) : key ∈ m.keys :=
  (List.filter_sublist.map Prod.fst).subset h

theorem ownEntries_distinct (m : KeyedMap α) : (m.ownEntries.map Prod.fst).Nodup :=
  ((ownOrder_perm m.entries).map Prod.fst).nodup_iff.mpr m.distinct

/-- The object that assignments build. -/
def ofAssignments (l : List (String × α)) : KeyedMap α :=
  l.foldl (fun m kv => m.assign kv.1 kv.2) empty

theorem foldl_assign_entries (m : KeyedMap α) {l : List (String × α)}
    (hnodup : (m.entries.map Prod.fst ++ l.map Prod.fst).Nodup) :
    (l.foldl (fun m kv => m.assign kv.1 kv.2) m).entries =
      m.entries ++ l.filter fun kv => kv.1 ≠ "__proto__" := by
  induction l generalizing m with
  | nil => simp
  | cons kv rest ih =>
    have hrest : (m.entries.map Prod.fst ++ rest.map Prod.fst).Nodup :=
      hnodup.sublist ((List.sublist_cons_self kv.1 (rest.map Prod.fst)).append_left _)
    rw [List.foldl_cons]
    by_cases hproto : kv.1 = "__proto__"
    · rw [assign, if_pos hproto, ih m hrest, List.filter_cons_of_neg (by simpa using hproto)]
    · have hnew : kv.1 ∉ m.entries.map Prod.fst := by
        intro hmem
        exact (List.nodup_append.mp hnodup).2.2 _ hmem _ List.mem_cons_self rfl
      have hset : (m.set kv.1 kv.2).entries = m.entries ++ [kv] := by
        rw [set]
        exact if_neg hnew
      rw [assign, if_neg hproto, ih, List.filter_cons_of_pos (by simpa using hproto), hset,
        List.append_assoc, List.singleton_append]
      rw [hset]
      simpa using hnodup

/-- Of distinct names only the prototype's is lost. -/
theorem ofAssignments_entries {l : List (String × α)} (hnodup : (l.map Prod.fst).Nodup) :
    (ofAssignments l).entries = l.filter fun kv => kv.1 ≠ "__proto__" := by
  rw [ofAssignments, foldl_assign_entries empty (by simpa [empty] using hnodup)]
  rfl

theorem foldl_assign_get (m : KeyedMap α) (l : List (String × α)) {key : String}
    (h : key ≠ "__proto__") : (l.foldl (fun m kv => m.assign kv.1 kv.2) m).get key =
      (l.reverse.lookup key).or (m.get key) := by
  induction l generalizing m with
  | nil => rfl
  | cons kv rest ih =>
    obtain ⟨k, v⟩ := kv
    have hlast : ∀ (l' : List (String × α)), (l' ++ [(k, v)]).lookup key =
        (l'.lookup key).or (if key = k then some v else none) := by
      intro l'
      induction l' with
      | nil => exact lookup_single k v key
      | cons kv' l' ih' =>
        rw [List.cons_append, List.lookup_cons, List.lookup_cons, ih']
        cases key == kv'.1 <;> rfl
    rw [List.foldl_cons, ih, List.reverse_cons, hlast, assign]
    by_cases hk : k = "__proto__"
    · rw [if_pos hk, if_neg (hk ▸ h), Option.or_none]
    · rw [if_neg hk, get_set]
      cases rest.reverse.lookup key with
      | some _ => rfl
      | none => by_cases hkey : key = k <;> simp [hkey]

/-- A name finds the value that was assigned last. -/
theorem ofAssignments_get (l : List (String × α)) {key : String} (h : key ≠ "__proto__") :
    (ofAssignments l).get key = l.reverse.lookup key := by
  rw [ofAssignments, foldl_assign_get empty l h, get_empty, Option.or_none]

theorem ownOrder_map (f : α → β) (l : List (String × α)) :
    ownOrder (l.map fun kv => (kv.1, f kv.2)) = (ownOrder l).map fun kv => (kv.1, f kv.2) := by
  have hindex : (isIndex ∘ fun kv : String × α => (kv.1, f kv.2)) = isIndex := rfl
  have hname : ((fun kv => !isIndex kv) ∘ fun kv : String × α => (kv.1, f kv.2)) =
      fun kv => !isIndex kv := rfl
  rw [ownOrder_eq, ownOrder_eq, List.map_append, List.filter_map, List.filter_map, hindex, hname,
    sortBy_map fun _ _ => rfl]
  rfl

theorem ownOrder_ownEntries (m : KeyedMap α) : ownOrder m.ownEntries = m.ownEntries :=
  ownOrder_ownOrder m.entries

/-- Assignments in the order of `Object.entries` give these entries again. -/
theorem ownEntries_ofAssignments {l : List (String × α)} (hnodup : (l.map Prod.fst).Nodup)
    (hproto : "__proto__" ∉ l.map Prod.fst) (horder : ownOrder l = l) :
    (ofAssignments l).ownEntries = l := by
  have hkeep : l.filter (fun kv => kv.1 ≠ "__proto__") = l := by
    apply List.filter_eq_self.mpr
    intro kv hkv
    have hne : kv.1 ≠ "__proto__" := fun heq => hproto (heq ▸ List.mem_map_of_mem hkv)
    simpa using hne
  rw [ownEntries, ofAssignments_entries hnodup, hkeep, horder]

theorem proto_notMem (l : List (String × α)) : "__proto__" ∉ (ofAssignments l).keys := by
  have hassign : ∀ (m : KeyedMap α) (key : String) (value : α), "__proto__" ∉ m.keys →
      "__proto__" ∉ (m.assign key value).keys := by
    intro m key value h
    rw [assign]
    split_ifs with hk
    · exact h
    · rw [mem_keys_set]
      exact fun hmem => hmem.elim (fun heq => hk heq.symm) h
  have hfold : ∀ m : KeyedMap α, "__proto__" ∉ m.keys →
      "__proto__" ∉ (l.foldl (fun m kv => m.assign kv.1 kv.2) m).keys := by
    induction l with
    | nil => exact fun m h => h
    | cons kv rest ih => exact fun m h => ih _ (hassign m kv.1 kv.2 h)
  exact hfold empty (List.not_mem_nil)

end KeyedMap

end Wazir
