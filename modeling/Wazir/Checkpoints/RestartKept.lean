import Wazir.Checkpoints.Restore
import Wazir.Shared.Lookups
import Wazir.Shared.IsoText
import Wazir.Shared.Throwing

/-! What a store that revives dates lists to a new process, and which of its portable handoffs `restore`
takes up. The members of an object come back in their order; a JSONB column orders them anew, but what is
read here is read by the name of a member or sorted by name. -/

namespace Wazir.Checkpoints

open JsValue

/-! Members of a record that a store gave back. -/

variable {v : JsValue}

section Records

variable {store : RevivingStore} {parseDate : String → JsDate}

theorem StoredRecord.get_toJs (r : StoredRecord) {key : String} (h : r.fields.lookup key = some v) :
    r.toJs.get key = v := by
  rw [StoredRecord.toJs, get_obj, h, Option.getD_some]

theorem reload_toJs (r : StoredRecord) : store.reload parseDate r.toJs =
    .obj (r.fields.map fun kv => (kv.1, store.reload parseDate kv.2)) :=
  reload_full store parseDate r.safe r.defined

theorem get_reload (r : StoredRecord) {key : String} (h : r.fields.lookup key = some v) :
    (store.reload parseDate r.toJs).get key = store.reload parseDate v := by
  rw [reload_toJs, get_obj, lookup_map, h]
  rfl

theorem reload_envelope {kind digest : String} (hkind : kind ∉ unsafeKeys) {record : JsValue}
    (hdef : record.isUndefined = false) : store.reload parseDate (envelope kind digest record) =
      .obj [("version", .nat 1), ("digest", store.reload parseDate (.str digest)),
        (kind, store.reload parseDate record)] := by
  have hsafe : SafeFields [("version", .nat 1), ("digest", .str digest), (kind, record)] := by
    intro kv hkv
    simp only [List.mem_cons, List.not_mem_nil, or_false] at hkv
    rcases hkv with rfl | rfl | rfl
    · exact (by decide : "version" ∉ unsafeKeys)
    · exact (by decide : "digest" ∉ unsafeKeys)
    · exact hkind
  rw [envelope, reload_full store parseDate hsafe]
  · simp
  · intro kv hkv
    simp only [List.mem_cons, List.not_mem_nil, or_false] at hkv
    rcases hkv with rfl | rfl | rfl
    · rfl
    · rfl
    · exact hdef

end Records

/-! What was written, and what a new service finds. -/

/-- `list(prefix)` of the store, without the values: a file keeps the order of the puts, and
`PostgresStore` orders by key. -/
def listing {α : Type} (store : RevivingStore) (collate : String → String → Ordering)
    (key : α → String) (items : List α) : List α :=
  match store with
  | .jsonFile => items
  | .postgres => sortBy (fun a b => collate (key a) (key b)) items

/-- What the store lists to a new process. -/
def relisted (store : RevivingStore) (collate : String → String → Ordering)
    (parseDate : String → JsDate) (written : List (String × JsValue)) : List (String × JsValue) :=
  (listing store collate Prod.fst written).map fun kv => (kv.1, store.reload parseDate kv.2)

theorem mem_listing {α : Type} {store : RevivingStore} {collate : String → String → Ordering}
    {key : α → String} {items : List α} {a : α} :
    a ∈ listing store collate key items ↔ a ∈ items := by
  cases store with
  | jsonFile => exact Iff.rfl
  | postgres => exact mem_sortBy

theorem listing_map {α β : Type} {store : RevivingStore} {collate : String → String → Ordering}
    {key : β → String} (f : α → β) (items : List α) : listing store collate key (items.map f) =
    (listing store collate (fun a => key (f a)) items).map f := by
  cases store with
  | jsonFile => rfl
  | postgres => exact sortBy_map (fun _ _ => rfl) items

namespace RestoreHost

variable (host : RestoreHost)

/-- The digest that is stored next to a portable handoff is its own; nothing reads it. -/
def portableEntry (p : PortableHandoff) : String × JsValue :=
  ("portable-handoff/" ++ p.executionId,
    envelope "handoff" ((p.toJs.get "integrityDigest").string.getD "") p.toJs)

end RestoreHost

section Handoffs

variable {host : RestoreHost} {store : RevivingStore}

theorem notIso_digest (hsha : ∀ text, (host.sha256 text).length = 64) (text : String) :
    isIsoDateString (host.sha256 text) = false :=
  notIso_long (by rw [hsha]; omega)

theorem mapM_relisted {α β : Type} (f : String × JsValue → Except String β)
    (collate : String → String → Ordering) (entry : α → String × JsValue) (items : List α)
    {out : List β} :
    (relisted store collate host.parseDate (items.map entry)).mapM f = .ok out ↔
      List.Forall₂ (fun a b => f ((entry a).1, store.reload host.parseDate (entry a).2) = .ok b)
        (listing store collate (fun a => (entry a).1) items) out := by
  rw [mapM_ok, relisted, listing_map, List.map_map, List.forall₂_map_left_iff]
  rfl

theorem restorePortable_eq (p : PortableHandoff) :
    host.restorePortable ((RestoreHost.portableEntry p).1,
      store.reload host.parseDate (RestoreHost.portableEntry p).2) =
    match host.verifyPortableHandoff (store.reload host.parseDate p.toJs) with
    | none => .error "Invalid time value"
    | some [] => .ok (some (store.reload host.parseDate p.toJs))
    | some errors => .error ("INVALID_PORTABLE_HANDOFF: " ++ (RestoreHost.portableEntry p).1 ++ " (" ++
        "; ".intercalate errors ++ ")") := by
  have hreload : store.reload host.parseDate (RestoreHost.portableEntry p).2 = _ :=
    reload_envelope (by decide) rfl
  have htruthy : (store.reload host.parseDate p.toJs).truthy = true := by
    rw [reload_toJs]
    rfl
  unfold RestoreHost.restorePortable
  rw [hreload]
  exact if_pos (by rw [Bool.and_eq_true]; exact ⟨rfl, htruthy⟩)

theorem restorePortable_ok {p : PortableHandoff} {out : Option JsValue}
    (h : host.restorePortable ((RestoreHost.portableEntry p).1,
      store.reload host.parseDate (RestoreHost.portableEntry p).2) = .ok out) :
    out = some (store.reload host.parseDate p.toJs) ∧
      host.verifyPortableHandoff (store.reload host.parseDate p.toJs) = some [] := by
  rw [restorePortable_eq] at h
  split at h
  · cases h
  · rename_i hverify
    exact ⟨(Except.ok.inj h).symm, hverify⟩
  · cases h

end Handoffs

/-- `Date.parse` of what `toISOString` gives. -/
noncomputable def parseIso (s : String) : JsDate :=
  open Classical in if h : ∃ t, isoText t = s then some h.choose else none

theorem parseIso_isoText (t : Timestamp) : parseIso (isoText t) = some t := by
  have h : ∃ t', isoText t' = isoText t := ⟨t, rfl⟩
  rw [parseIso, dif_pos h, isoText_injective h.choose_spec]

end Wazir.Checkpoints
