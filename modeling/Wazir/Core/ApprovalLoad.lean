import Wazir.Core.ApprovalQueue

/-! What a fresh queue holds once it loaded a list of records: the last ones, up to its limit. -/

namespace Wazir.Core

/-- What is left of a list after the overflow. -/
def retained {α : Type} (limit : ℕ) (history : List α) : List α :=
  history.drop (history.length - limit)

theorem overflow_append_retained {α : Type} (limit : ℕ) (l : List α) :
    overflow limit l ++ retained limit l = l :=
  List.take_append_drop _ l

theorem retained_map {α β : Type} (f : α → β) (limit : ℕ) (l : List α) :
    retained limit (l.map f) = (retained limit l).map f := by
  rw [retained, retained, List.length_map, List.map_drop]

theorem overflow_map {α β : Type} (f : α → β) (limit : ℕ) (l : List α) :
    overflow limit (l.map f) = (overflow limit l).map f := by
  rw [overflow, overflow, List.length_map, List.map_take]

/-- Dropping again after one more record. -/
theorem retained_concat {α : Type} (limit : ℕ) (l : List α) (a : α) :
    retained limit (retained limit l ++ [a]) = retained limit (l ++ [a]) := by
  have hsplit := overflow_append_retained limit l
  have hlen : (overflow limit l).length = l.length - limit := by
    rw [overflow, List.length_take]
    omega
  have hkept : (retained limit l).length = l.length - (l.length - limit) := List.length_drop
  generalize retained limit l = kept at hsplit hkept
  generalize overflow limit l = dropped at hsplit hlen
  subst hsplit
  rw [List.length_append] at hlen hkept
  have hcount : (dropped ++ (kept ++ [a])).length - limit =
      dropped.length + ((kept ++ [a]).length - limit) := by
    simp only [List.length_append, List.length_singleton]
    omega
  rw [retained, retained, List.append_assoc, hcount, ← List.drop_drop, List.drop_left]

theorem expire_id (now : Timestamp) (r : ApprovalRecord) : (r.expire now).id = r.id := by
  rw [ApprovalRecord.expire]
  split_ifs <;> rfl

theorem expire_scopeKey (now : Timestamp) (r : ApprovalRecord) :
    (r.expire now).scopeKey = r.scopeKey := by
  rw [ApprovalRecord.expire]
  split_ifs <;> rfl

theorem expire_status (now : Timestamp) (r : ApprovalRecord) :
    (r.expire now).status = if r.status = .pending then .expired else r.status := by
  rw [ApprovalRecord.expire]
  split_ifs <;> rfl

variable {r : ApprovalRecord}

theorem expire_past (now : Timestamp) (h : r.status ≠ .pending) :
    r.expire now = r :=
  if_neg h

theorem expire_settled (now : Timestamp) (r : ApprovalRecord) :
    (r.expire now).status ≠ .pending := by
  rw [ApprovalRecord.expire]
  split_ifs with h
  · exact ApprovalStatus.noConfusion
  · exact h

/-- The last record of a scope. -/
def lastOf (key : String) (records : List ApprovalRecord) : Option ApprovalRecord :=
  records.reverse.find? (·.scopeKey = some key)

theorem lastOf_concat (key : String) (records : List ApprovalRecord) (r : ApprovalRecord) :
    lastOf key (records ++ [r]) = if r.scopeKey = some key then some r else lastOf key records := by
  rw [lastOf, List.reverse_append, List.reverse_singleton, List.singleton_append, List.find?_cons]
  by_cases h : r.scopeKey = some key <;> simp [h, lastOf]

theorem lastOf_cons (key : String) (records : List ApprovalRecord) (r : ApprovalRecord) :
    lastOf key (r :: records) =
      (lastOf key records).or (if r.scopeKey = some key then some r else none) := by
  rw [lastOf, List.reverse_cons, List.find?_append, lastOf]
  by_cases h : r.scopeKey = some key <;> simp [h]

theorem lastOf_some {key : String} {records : List ApprovalRecord} (h : lastOf key records = some r) :
    r ∈ records ∧ r.scopeKey = some key :=
  ⟨List.mem_reverse.mp (List.mem_of_find?_eq_some h), by simpa using List.find?_some h⟩

theorem lastOf_none {key : String} {records : List ApprovalRecord} :
    lastOf key records = none ↔ ∀ r ∈ records, r.scopeKey ≠ some key := by
  simp [lastOf]

/-- The index of decided scopes names the last record of each scope in the history. -/
def Indexed (q : ApprovalQueue) : Prop :=
  ∀ key, q.decidedScopes.lookup key = lastOf key q.history

theorem lookup_indexDecided {decided : Table String ApprovalRecord} {record : ApprovalRecord}
    (h : record.status ≠ .pending) (key : String) : (indexDecided decided record).lookup key =
      if record.scopeKey = some key then some record else decided.lookup key := by
  rw [indexDecided]
  cases hscope : record.scopeKey with
  | none => simp
  | some k =>
    simp only [if_neg h, Option.some.injEq]
    by_cases hk : k = key
    · rw [if_pos hk, hk, AList.lookup_insert]
    · rw [if_neg hk, AList.lookup_insert_ne (Ne.symm hk)]

/-- Dropping the oldest records keeps the index right. -/
theorem indexed_drop {decided : Table String ApprovalRecord} {dropped kept : List ApprovalRecord}
    (hids : ((dropped ++ kept).map ApprovalRecord.id).Nodup)
    (h : ∀ key, decided.lookup key = lastOf key (dropped ++ kept)) (key : String) :
    (dropped.foldl dropDecided decided).lookup key = lastOf key kept := by
  induction dropped generalizing decided with
  | nil => exact h key
  | cons r rest ih =>
    rw [List.cons_append, List.map_cons, List.nodup_cons] at hids
    refine ih hids.2 fun key => ?_
    have hkey := h key
    rw [List.cons_append, lastOf_cons] at hkey
    rw [dropDecided]
    cases hscope : r.scopeKey with
    | none => rw [hkey, hscope, if_neg (by simp), Option.or_none]
    | some k =>
      by_cases hk : k = key
      · subst hk
        rw [hscope, if_pos rfl] at hkey
        cases hlast : lastOf k (rest ++ kept) with
        | none => simp [hkey, hlast]
        | some x =>
          have hne : x.id ≠ r.id := fun heq =>
            hids.1 (heq ▸ List.mem_map_of_mem (lastOf_some hlast).1)
          simp [hkey, hlast, hne]
      · rw [hscope, if_neg (by simpa using hk), Option.or_none] at hkey
        change (if _ then decided.erase k else decided).lookup key = _
        split_ifs
        · rw [AList.lookup_erase_ne (Ne.symm hk), hkey]
        · exact hkey

theorem remember_history {limit : ℕ} {q : ApprovalQueue} {record : ApprovalRecord}
    (hnew : ∀ r ∈ q.history, r.id ≠ record.id) :
    (q.remember limit record).history = retained limit (q.history ++ [record]) := by
  have hkeep : q.history.filter (·.id ≠ record.id) = q.history :=
    List.filter_eq_self.mpr fun r hr => decide_eq_true (hnew r hr)
  simp only [ApprovalQueue.remember, hkeep]
  rfl

theorem remember_indexed {limit : ℕ} {q : ApprovalQueue} {record : ApprovalRecord}
    (hids : ((q.history ++ [record]).map ApprovalRecord.id).Nodup)
    (hstatus : record.status ≠ .pending) (h : Indexed q) :
    Indexed (q.remember limit record) := by
  have hnew : ∀ r ∈ q.history, r.id ≠ record.id := by
    intro r hr heq
    rw [List.map_append, List.map_singleton, List.nodup_append] at hids
    exact hids.2.2 _ (List.mem_map_of_mem hr) _ (List.mem_singleton.mpr rfl) heq
  have hkeep : q.history.filter (·.id ≠ record.id) = q.history :=
    List.filter_eq_self.mpr fun r hr => decide_eq_true (hnew r hr)
  intro key
  rw [remember_history hnew]
  simp only [ApprovalQueue.remember, hkeep]
  refine indexed_drop ?_ ?_ key
  · rw [overflow_append_retained]
    exact hids
  · intro key
    rw [overflow_append_retained, lastOf_concat, lookup_indexDecided hstatus, h key]

/-- What `init` leaves of the records it loaded. -/
structure Loaded (limit : ℕ) (now : Timestamp) (loaded : List ApprovalRecord) (q : ApprovalQueue) :
    Prop where
  pending : q.pending = ∅
  pendingByScope : q.pendingByScope = ∅
  unwritten : q.unwritten = []
  history : q.history = retained limit (loaded.map (·.expire now))
  indexed : Indexed q

/-- What becomes of the store. -/
def durable (now : Timestamp) (putFails : String → Bool) (store : ApprovalStore)
    (loaded : List ApprovalRecord) (id : String) : Option ApprovalRecord :=
  match loaded.find? fun r => r.id = id ∧ r.status = .pending ∧ putFails id = false with
  | some r => some (r.expire now)
  | none => store.lookup id

variable {putFails : String → Bool}

theorem loaded_of_foldl {limit : ℕ} {now : Timestamp} {loaded : List ApprovalRecord}
    {store : ApprovalStore} (hids : (loaded.map ApprovalRecord.id).Nodup) :
    Loaded limit now loaded (loaded.foldl (loadRecord limit now putFails) (emptyQueue, store)).1 := by
  induction loaded using List.reverseRecOn with
  | nil => exact ⟨rfl, rfl, rfl, by simp [retained, emptyQueue], fun key => rfl⟩
  | append_singleton done r ih =>
    have hdone : (done.map ApprovalRecord.id).Nodup := by
      rw [List.map_append] at hids
      exact hids.of_append_left
    obtain ⟨hpending, hscopes, hunwritten, hhistory, hindexed⟩ := ih hdone
    rw [List.foldl_concat]
    generalize done.foldl (loadRecord limit now putFails) (emptyQueue, store) = s at *
    have hids' : ((s.1.history ++ [r.expire now]).map ApprovalRecord.id).Nodup := by
      have hsub : (s.1.history ++ [r.expire now]).Sublist ((done ++ [r]).map (·.expire now)) := by
        rw [hhistory, List.map_append]
        exact (List.drop_sublist _ _).append_right _
      refine (hsub.map ApprovalRecord.id).nodup ?_
      rw [List.map_map]
      exact (List.map_congr_left fun x _ => expire_id now x) ▸ hids
    have hnew : ∀ x ∈ s.1.history, x.id ≠ (r.expire now).id := by
      intro x hx heq
      rw [List.map_append, List.map_singleton, List.nodup_append] at hids'
      exact hids'.2.2 _ (List.mem_map_of_mem hx) _ (List.mem_singleton.mpr rfl) heq
    have hnot : r.id ∉ s.1.pending := by
      rw [hpending]
      exact AList.notMem_empty _
    rw [loadRecord, if_neg hnot]
    refine ⟨hpending, hscopes, hunwritten, ?_, remember_indexed hids' (expire_settled now r) hindexed⟩
    rw [remember_history hnew, hhistory, retained_concat, List.map_append, List.map_singleton]

theorem store_of_foldl {limit : ℕ} {now : Timestamp} {loaded : List ApprovalRecord}
    {store : ApprovalStore} (hids : (loaded.map ApprovalRecord.id).Nodup) (id : String) :
    (loaded.foldl (loadRecord limit now putFails) (emptyQueue, store)).2.lookup id =
      durable now putFails store loaded id := by
  induction loaded using List.reverseRecOn with
  | nil => rfl
  | append_singleton done r ih =>
    have hdone : (done.map ApprovalRecord.id).Nodup := by
      rw [List.map_append] at hids
      exact hids.of_append_left
    have hpending : (done.foldl (loadRecord limit now putFails) (emptyQueue, store)).1.pending = ∅ :=
      (loaded_of_foldl hdone).pending
    have ih := ih hdone
    rw [List.foldl_concat]
    generalize done.foldl (loadRecord limit now putFails) (emptyQueue, store) = s at *
    have hnot : r.id ∉ s.1.pending := by
      rw [hpending]
      exact AList.notMem_empty _
    have hlater : ∀ x ∈ done, x.id ≠ r.id := by
      intro x hx heq
      rw [List.map_append, List.map_singleton, List.nodup_append] at hids
      exact hids.2.2 _ (List.mem_map_of_mem hx) _ (List.mem_singleton.mpr rfl) heq
    rw [loadRecord, if_neg hnot]
    rw [durable] at ih ⊢
    rw [List.find?_append]
    by_cases hid : r.id = id
    · subst hid
      have hnone : done.find? (fun x => x.id = r.id ∧ x.status = .pending ∧ putFails r.id = false) =
          none := List.find?_eq_none.mpr fun x hx => by simp [hlater x hx]
      rw [hnone] at ih ⊢
      by_cases hput : r.status = .pending ∧ putFails r.id = false
      · simp [hput]
      · have hput' : (decide (r.status = .pending) && !putFails r.id) = false := by
          simpa using hput
        simp only [hput', Bool.false_eq_true, if_false]
        simp [hput, ih]
    · have hskip : [r].find? (fun x => x.id = id ∧ x.status = .pending ∧ putFails id = false) =
          none := by simp [hid]
      rw [hskip, Option.or_none, ← ih]
      simp only
      split_ifs
      · exact AList.lookup_insert_ne (Ne.symm hid)
      · rfl

theorem durable_cases {loaded : List ApprovalRecord} {now : Timestamp} {store : ApprovalStore}
    {id : String} (h : durable now putFails store loaded id = some r) :
    store.lookup id = some r ∨
      ∃ x ∈ loaded, x.id = id ∧ x.status = .pending ∧ x.expire now = r := by
  rw [durable] at h
  split at h
  · rename_i x hx
    have hfound := List.find?_some hx
    simp only [Bool.decide_and, Bool.and_eq_true, decide_eq_true_eq] at hfound
    exact .inr ⟨x, List.mem_of_find?_eq_some hx, hfound.1, hfound.2.1, Option.some.inj h⟩
  · exact .inl h

@[simp] theorem reload_id (gives : JsValue → JsValue) (r : ApprovalRecord) :
    (r.reload gives).id = r.id := rfl

@[simp] theorem reload_scopeKey (gives : JsValue → JsValue) (r : ApprovalRecord) :
    (r.reload gives).scopeKey = r.scopeKey := rfl

@[simp] theorem reload_status (gives : JsValue → JsValue) (r : ApprovalRecord) :
    (r.reload gives).status = r.status := rfl

theorem sortByCreated_perm {localeCompare : String → String → Ordering}
    {entries loaded : List ApprovalRecord} (h : sortByCreated localeCompare entries = .ok loaded) :
    loaded.Perm (entries.filter (·.id ≠ "")) := by
  simp only [sortByCreated] at h
  split at h
  · cases h
  · cases h
    exact List.perm_insertionSort _ _

variable {host : ApprovalHost}

theorem mem_listed {store : ApprovalStore} :
    r ∈ host.listed store ↔ ∃ id x, store.lookup id = some x ∧ x.reload host.gives = r := by
  simp only [ApprovalHost.listed, List.mem_map, Sigma.exists]
  constructor
  · rintro ⟨id, x, hx, rfl⟩
    exact ⟨id, x, AList.mem_lookup_iff.mpr hx, rfl⟩
  · rintro ⟨id, x, hx, rfl⟩
    exact ⟨id, x, AList.mem_lookup_iff.mp hx, rfl⟩

theorem listed_nodup {store : ApprovalStore} (h : ∀ id r, store.lookup id = some r → r.id = id) :
    ((host.listed store).map ApprovalRecord.id).Nodup := by
  have hkeys : (host.listed store).map ApprovalRecord.id = store.keys := by
    rw [ApprovalHost.listed, List.map_map]
    exact List.map_congr_left fun kv hkv => h kv.1 kv.2 (AList.mem_lookup_iff.mpr hkv)
  rw [hkeys]
  exact store.keys_nodup

/-- The store's records are loaded, each once, in whatever order it lists them. -/
theorem loaded_of_store {store : ApprovalStore} {entries loaded : List ApprovalRecord}
    (h : ∀ id r, store.lookup id = some r → r.id = id ∧ r.id ≠ "")
    (hlisted : entries.Perm (host.listed store))
    (hsort : sortByCreated host.localeCompare entries = .ok loaded) :
    (loaded.map ApprovalRecord.id).Nodup ∧
      ∀ r, r ∈ loaded ↔ ∃ x, store.lookup r.id = some x ∧ x.reload host.gives = r := by
  have hperm := (sortByCreated_perm hsort).trans (hlisted.filter _)
  constructor
  · refine (hperm.map ApprovalRecord.id).nodup_iff.mpr ?_
    exact ((List.filter_sublist).map ApprovalRecord.id).nodup
      (listed_nodup fun id r hr => (h id r hr).1)
  · intro r
    rw [hperm.mem_iff, List.mem_filter, mem_listed]
    constructor
    · rintro ⟨⟨id, x, hx, rfl⟩, -⟩
      exact ⟨x, (h id x hx).1 ▸ hx, rfl⟩
    · rintro ⟨x, hx, rfl⟩
      exact ⟨⟨_, x, hx, rfl⟩, decide_eq_true (h _ x hx).2⟩

end Wazir.Core
