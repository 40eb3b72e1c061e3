import Wazir.Checkpoints.RestartKept
import Wazir.Core.OneDecision

/-! Approvals across a restart, through a store that turns ISO dates back into dates: `init` gets
through, what was pending is expired, and what was decided is answered as before. -/

namespace Wazir.Core

open ApprovalHost

/-- A queue that has just decided `r`. -/
def remembering (r : ApprovalRecord) : ApprovalQueue := emptyQueue.remember 1 r

/-- What a restart makes of the records of a store. -/
structure Recovered (store : ApprovalStore) (queue : ApprovalQueue) (store' : ApprovalStore) :
    Prop where
  expired : ∀ id r, store.lookup id = some r → r.status = .pending →
    (∃ r', store'.lookup id = some r' ∧ r'.status = .expired) ∧
      ∃ r', queue.find id = some r' ∧ r'.status = .expired
  resolves : ∀ id r, store.lookup id = some r → r.status ≠ .pending → r.scopeKey ≠ none →
    ∀ limit approved resolvedBy expected now,
      (queue.resolve limit id approved resolvedBy expected now).1 =
        ((remembering r).resolve limit id approved resolvedBy expected now).1
  requests : ∀ id r scope, store.lookup id = some r → r.status ≠ .pending →
    validateScope scope = .ok () → r.scopeKey = some (approvalScopeKey scope) →
    ∀ options details uuid now autoDeny,
      (queue.requestScoped options scope details uuid now autoDeny).1 =
        ((remembering r).requestScoped options scope details uuid now autoDeny).1

/-- `init` of a fresh queue completes, and recovers what the store lists. -/
def Survives (host : ApprovalHost) (now : Timestamp) (putFails : String → Bool)
    (entries : List ApprovalRecord) (store : ApprovalStore) : Prop :=
  ∃ queue store', emptyQueue.init host.localeCompare host.options.limit now putFails entries store =
    .ok (queue, store') ∧ Recovered store queue store'

/-- Of two records or more no `createdAt` became a date, the puts go through, the history has room
for what was pending or scoped, no scoped decision changed on its way through the store, and none is
hidden behind another answer of its scope. -/
structure Restartable (host : ApprovalHost) (putFails : String → Bool)
    (entries : List ApprovalRecord) (store : ApprovalStore) : Prop where
  texts : entries.length ≤ 1 ∨ ∀ r ∈ entries, r.createdAt.string ≠ none
  puts : ∀ r ∈ entries, r.status = .pending → putFails r.id = false
  room : ∀ loaded, sortByCreated host.localeCompare entries = .ok loaded →
    ∀ r ∈ overflow host.options.limit loaded, r.status ≠ .pending ∧ r.scopeKey = none
  unchanged : ∀ id r, store.lookup id = some r → r.status ≠ .pending → r.scopeKey ≠ none →
    r.reload host.gives = r
  agree : ∀ loaded, sortByCreated host.localeCompare entries = .ok loaded →
    ∀ r ∈ loaded, r.status ≠ .pending → ∀ key, r.scopeKey = some key →
    ∀ x, lastOf key (retained host.options.limit loaded) = some x →
      (x.status = .approved ↔ r.status = .approved)

def revivingHost (kind : JsValue.RevivingStore) (parseDate : String → JsDate)
    (options : ApprovalQueueOptions) (localeCompare : String → String → Ordering) : ApprovalHost :=
  ⟨options, localeCompare, kind.reload parseDate⟩

/-! What a queue writes, in whatever run. -/

/-- An id, and the key of a valid scope if any. -/
def Proper (id : String) (scopeKey : Option String) : Prop :=
  id ≠ "" ∧ ∀ key, scopeKey = some key →
    ∃ scope, validateScope scope = .ok () ∧ approvalScopeKey scope = key

structure Written (s : ApprovalSystem) : Prop where
  pending : ∀ id item, s.queue.pending.lookup id = some item → Proper item.id item.scopeKey
  unwritten : ∀ r ∈ s.queue.unwritten, Proper r.id r.scopeKey
  store : ∀ id r, s.store.lookup id = some r → r.id = id ∧ Proper r.id r.scopeKey

section Written

variable {host : ApprovalHost} {s : ApprovalSystem}

theorem Written.ask (h : Written s) {item : PendingApprovalRequest}
    (hitem : Proper item.id item.scopeKey) (scopes : Table String String → Table String String) :
    Written { s with queue := { (s.queue.createPending item).2 with
      pendingByScope := scopes (s.queue.createPending item).2.pendingByScope } } := by
  obtain ⟨records, hqueue, hrecords, -⟩ := createPending_spec item s.queue
  rw [hqueue]
  refine ⟨fun id x hx => ?_, fun r hr => ?_, h.store⟩
  · change (s.queue.pending.insert item.id item).lookup id = some x at hx
    by_cases hid : id = item.id
    · rw [hid, AList.lookup_insert] at hx
      obtain rfl := Option.some.inj hx
      exact hitem
    · rw [AList.lookup_insert_ne hid] at hx
      exact h.pending id x hx
  · rcases List.mem_append.mp hr with hr | hr
    · exact h.unwritten r hr
    · rw [(hrecords r hr).1, (hrecords r hr).2.1]
      exact hitem

theorem Written.settle (h : Written s) {id : String} {item : PendingApprovalRequest}
    (hpending : s.queue.pending.lookup id = some item) (limit : ℕ) (approved : Bool)
    (resolvedBy : Option String) (now : Timestamp) :
    Written { s with queue := (s.queue.settle limit item approved resolvedBy now).2 } := by
  have hkept : ∀ {id x}, (s.queue.pending.erase item.id).lookup id = some x →
      Proper x.id x.scopeKey := by
    intro id x hx
    by_cases hid : id = item.id
    · rw [hid, AList.lookup_erase] at hx
      cases hx
    · rw [AList.lookup_erase_ne hid] at hx
      exact h.pending id x hx
  simp only [ApprovalQueue.settle]
  split
  · exact ⟨fun _ _ => hkept, h.unwritten, h.store⟩
  · rename_i record hrecord
    refine ⟨fun _ _ => hkept, fun r hr => ?_, h.store⟩
    rcases List.mem_append.mp hr with hr | hr
    · exact h.unwritten r hr
    · obtain ⟨hid, hkey, -⟩ := toRecord_ok hrecord
      rw [List.mem_singleton.mp hr, hid, hkey]
      exact h.pending id item hpending

theorem Written.restart (h : Written s) (now : Timestamp) (listFails : Bool)
    (putFails : String → Bool) : Written (host.restart now listFails putFails s).2 := by
  have hfresh : ∀ {store : ApprovalStore},
      (∀ id r, store.lookup id = some r → r.id = id ∧ Proper r.id r.scopeKey) →
      ∀ {queue : ApprovalQueue}, queue.pending = ∅ → queue.unwritten = [] →
        Written ⟨queue, store⟩ := by
    intro store hstore queue hpending hunwritten
    refine ⟨fun id x hx => ?_, fun r hr => ?_, hstore⟩
    · change queue.pending.lookup id = some x at hx
      rw [hpending] at hx
      cases hx
    · change r ∈ queue.unwritten at hr
      rw [hunwritten] at hr
      cases hr
  rw [ApprovalHost.restart]
  split_ifs
  · exact hfresh h.store rfl rfl
  · rw [ApprovalQueue.init]
    cases hsort : sortByCreated host.localeCompare (host.listed s.store) with
    | error e => exact hfresh h.store rfl rfl
    | ok loaded =>
      obtain ⟨hids, hloaded⟩ := loaded_of_store
        (fun id r hr => ⟨(h.store id r hr).1, (h.store id r hr).2.1⟩) (List.Perm.refl _) hsort
      refine hfresh ?_ (loaded_of_foldl hids).pending (loaded_of_foldl hids).unwritten
      intro id r hr
      rw [store_of_foldl hids] at hr
      rcases durable_cases hr with hr | ⟨x, hx, rfl, -, rfl⟩
      · exact h.store id r hr
      · obtain ⟨y, hy, rfl⟩ := (hloaded x).mp hx
        rw [expire_id, expire_scopeKey]
        exact ⟨rfl, (h.store _ y hy).2⟩

theorem Written.step (h : Written s) (event : ApprovalEvent) : Written (host.step event s).2 := by
  cases event with
  | requestScoped scope details uuid now autoDeny =>
    rcases requestScoped_cases host.options scope details uuid now autoDeny s.queue with
      ⟨e, hout⟩ | ⟨hvalid, ⟨id, -, hout⟩ | ⟨record, -, -, hout⟩ | ⟨-, hout⟩ | ⟨-, -, hout⟩⟩
    · simpa only [ApprovalHost.step, hout] using h
    · simpa only [ApprovalHost.step, hout] using h
    · simpa only [ApprovalHost.step, hout] using h
    · simpa only [ApprovalHost.step, hout] using h
    · simp only [ApprovalHost.step, hout]
      refine h.ask ⟨(bound_item hvalid).1, fun key hkey => ⟨scope, hvalid, ?_⟩⟩ _
      exact Option.some.inj hkey
  | enqueue request decision jobId taskId agentId ttlMs uuid now env =>
    simp only [ApprovalHost.step, ApprovalQueue.enqueue]
    split_ifs
    · exact h
    · exact h
    · exact h
    · refine h.ask ⟨by simp [ApprovalQueue.newItem], fun key hkey => ?_⟩ id
      cases hkey
  | resolve id approved resolvedBy expected now =>
    simp only [ApprovalHost.step, ApprovalQueue.resolve]
    cases hpending : s.queue.pending.lookup id with
    | none => exact h
    | some item =>
      simp only
      split_ifs
      · exact h.settle hpending _ _ _ _
      · cases toRecord item .pending none none <;> exact h
      · exact h.settle hpending _ _ _ _
  | settle id approved resolvedBy now =>
    simp only [ApprovalHost.step]
    cases hpending : s.queue.pending.lookup id with
    | none => exact h
    | some item => exact h.settle hpending _ _ _ _
  | write fails =>
    simp only [ApprovalHost.step]
    cases hnext : s.queue.unwritten with
    | nil => exact h
    | cons record rest =>
      have hmem : ∀ r ∈ record :: rest, Proper r.id r.scopeKey := hnext ▸ h.unwritten
      refine ⟨h.pending, fun r hr => hmem r (List.mem_cons_of_mem _ hr), fun id r hr => ?_⟩
      simp only at hr
      split_ifs at hr
      · exact h.store id r hr
      · by_cases hid : id = record.id
        · rw [hid, AList.lookup_insert] at hr
          obtain rfl := Option.some.inj hr
          exact ⟨hid.symm, hmem _ List.mem_cons_self⟩
        · rw [AList.lookup_insert_ne hid] at hr
          exact h.store id r hr
  | restart now listFails putFails => exact h.restart now listFails putFails

theorem written_run (events : List ApprovalEvent) : Written (host.run events).2 := by
  induction events using List.reverseRecOn with
  | nil =>
    refine ⟨?_, ?_, ?_⟩
    · rintro id x ⟨⟩
    · rintro r ⟨⟩
    · rintro id r ⟨⟩
  | append_singleton events event ih =>
    rw [run_concat]
    exact ih.step event

end Written

/-! What a recovered queue answers. -/

theorem lastOf_map_expire (key : String) (now : Timestamp) (records : List ApprovalRecord) :
    lastOf key (records.map (·.expire now)) = (lastOf key records).map (·.expire now) := by
  induction records using List.reverseRecOn with
  | nil => rfl
  | append_singleton records r ih =>
    rw [List.map_append, List.map_singleton, lastOf_concat, lastOf_concat, expire_scopeKey, ih]
    split_ifs <;> rfl

variable {r : ApprovalRecord}

theorem resolvePast_inj {q q' : ApprovalQueue} {id : String} (hr : q'.find id = some r)
    (h : q.resolvePast id = q'.resolvePast id) : q.find id = some r := by
  simp only [ApprovalQueue.resolvePast, hr] at h
  cases hfind : q.find id with
  | none =>
    rw [hfind] at h
    split_ifs at h <;> cases h
  | some x =>
    rw [hfind] at h
    simp only at h
    split_ifs at h <;> simp_all

theorem find_remembering (r : ApprovalRecord) : (remembering r).find r.id = some r := by
  simp [remembering, ApprovalQueue.remember, emptyQueue, ApprovalQueue.find]

theorem remembering_index (hpast : r.status ≠ .pending) {key : String}
    (hkey : r.scopeKey = some key) : (remembering r).decidedScopes.lookup key = some r := by
  have hspared : Spared 1 ((emptyQueue.history.filter (·.id ≠ r.id)).map (·.scopeKey) ++
      [r.scopeKey]) := by
    intro key hmem
    exact absurd hmem (by simp [overflow, emptyQueue])
  rw [remembering, remember_room hspared, lookup_indexDecided hpast, if_pos hkey]

theorem resolve_past {q : ApprovalQueue} (h : q.pending = ∅) (limit : ℕ) (id : String)
    (approved : Bool) (resolvedBy : Option String) (expected : Option PartialScope)
    (now : Timestamp) :
    (q.resolve limit id approved resolvedBy expected now).1 =
      ⟨[], [], .resolution (q.resolvePast id)⟩ := by
  have hnone : q.pending.lookup id = none := by
    rw [h]
    rfl
  simp only [ApprovalQueue.resolve, hnone]

theorem requestScoped_past {q : ApprovalQueue} (h : q.pendingByScope = ∅) {scope : ApprovalScope}
    (hvalid : validateScope scope = .ok ())
    (hindex : q.decidedScopes.lookup (approvalScopeKey scope) = some r)
    (options : ApprovalQueueOptions) (details : ScopedDetails) (uuid : String) (now : Timestamp)
    (autoDeny : Bool) :
    (q.requestScoped options scope details uuid now autoDeny).1 =
      ⟨[], [], .settled (r.status = .approved)⟩ := by
  have hnone : q.pendingByScope.lookup (approvalScopeKey scope) = none := by
    rw [h]
    rfl
  simp only [ApprovalQueue.requestScoped, hvalid, hnone, hindex]

section Restart

variable {host : ApprovalHost} {now : Timestamp} {putFails : String → Bool}
  {entries loaded : List ApprovalRecord} {store store' : ApprovalStore} {queue : ApprovalQueue}

/-- A queue that loaded the records of a store. -/
structure Restarted (host : ApprovalHost) (now : Timestamp) (putFails : String → Bool)
    (loaded : List ApprovalRecord) (store : ApprovalStore) (queue : ApprovalQueue)
    (store' : ApprovalStore) : Prop extends Loaded host.options.limit now loaded queue where
  nodup : (loaded.map ApprovalRecord.id).Nodup
  mem : ∀ r, r ∈ loaded ↔ ∃ x, store.lookup r.id = some x ∧ x.reload host.gives = r
  ids : ∀ id r, store.lookup id = some r → r.id = id ∧ Proper r.id r.scopeKey
  durable : ∀ id, store'.lookup id = durable now putFails store loaded id

/-- A record that fell out of the history is not found. -/
theorem Restarted.kept (h : Restarted host now putFails loaded store queue store')
    (hr : r ∈ overflow host.options.limit loaded) :
    queue.find r.id = none := by
  refine List.find?_eq_none.mpr fun x hx hid => ?_
  rw [h.history, retained_map] at hx
  obtain ⟨y, hy, rfl⟩ := List.mem_map.mp hx
  rw [expire_id] at hid
  have hnodup := h.nodup
  rw [← overflow_append_retained host.options.limit loaded, List.map_append,
    List.nodup_append] at hnodup
  exact hnodup.2.2 _ (List.mem_map_of_mem hr) _ (List.mem_map_of_mem hy) (of_decide_eq_true hid).symm

theorem Restarted.find (h : Restarted host now putFails loaded store queue store')
    (hr : r ∈ retained host.options.limit loaded) :
    queue.find r.id = some (r.expire now) := by
  have hmem : r.expire now ∈ queue.history := by
    rw [h.history, retained_map]
    exact List.mem_map_of_mem hr
  have hnodup : (queue.history.map ApprovalRecord.id).Nodup := by
    have hids : (retained host.options.limit loaded).map (ApprovalRecord.id ∘ (·.expire now)) =
        (retained host.options.limit loaded).map ApprovalRecord.id :=
      List.map_congr_left fun x _ => expire_id now x
    rw [h.history, retained_map, List.map_map, hids]
    exact ((List.drop_sublist _ _).map _).nodup h.nodup
  rw [ApprovalQueue.find]
  cases hfind : queue.history.find? (·.id = r.id) with
  | none =>
    have := List.find?_eq_none.mp hfind _ hmem
    exact absurd (expire_id now r) (by simpa using this)
  | some x =>
    have hx := List.mem_of_find?_eq_some hfind
    have hid : x.id = r.id := by simpa using List.find?_some hfind
    rw [List.inj_on_of_nodup_map hnodup hx hmem (hid.trans (expire_id now r).symm)]

theorem Restarted.index (h : Restarted host now putFails loaded store queue store') (key : String) :
    queue.decidedScopes.lookup key =
      (lastOf key (retained host.options.limit loaded)).map (·.expire now) := by
  rw [h.indexed key, h.history, retained_map, lastOf_map_expire]

/-- A record of the store is loaded. -/
theorem Restarted.reload_mem (h : Restarted host now putFails loaded store queue store')
    {id : String} (hr : store.lookup id = some r) :
    r.reload host.gives ∈ loaded :=
  (h.mem _).mpr ⟨r, by rwa [reload_id, (h.ids id r hr).1], rfl⟩

theorem Restarted.durable_pending (h : Restarted host now putFails loaded store queue store')
    {id : String} (hr : store.lookup id = some r) (hpending : r.status = .pending) :
    store'.lookup id = if putFails id then some r else some ((r.reload host.gives).expire now) := by
  rw [h.durable, Core.durable]
  have hid := (h.ids id r hr).1
  cases hput : putFails id with
  | true =>
    have hnone : loaded.find? (fun x => x.id = id ∧ x.status = .pending ∧ true = false) = none :=
      List.find?_eq_none.mpr fun x hx => by simp
    rw [hnone]
    exact hr
  | false =>
    cases hfind : loaded.find? (fun x => x.id = id ∧ x.status = .pending ∧ false = false) with
    | none =>
      have := List.find?_eq_none.mp hfind _ (h.reload_mem hr)
      simp [hid, hpending] at this
    | some x =>
      have hx := List.mem_of_find?_eq_some hfind
      have hfound := List.find?_some hfind
      simp only [decide_eq_true_eq] at hfound
      have hsame : x = r.reload host.gives :=
        List.inj_on_of_nodup_map h.nodup hx (h.reload_mem hr) (hfound.1.trans hid.symm)
      rw [hsame]
      rfl

/-- A scoped decision that is answered as before was kept, unchanged. -/
theorem Restarted.decision_kept (h : Restarted host now putFails loaded store queue store')
    (hrec : Recovered store queue store') {id : String} (hr : store.lookup id = some r)
    (hpast : r.status ≠ .pending) (hscoped : r.scopeKey ≠ none) :
    queue.find id = some r := by
  have hid := (h.ids id r hr).1
  have hsame := hrec.resolves id r hr hpast hscoped 0 true none none now
  rw [resolve_past h.pending, resolve_past (q := remembering r) rfl] at hsame
  have hanswer := congrArg ApprovalEffect.answer hsame
  have hfind : (remembering r).find id = some r := hid ▸ find_remembering r
  exact resolvePast_inj hfind (by simpa using hanswer)

theorem Restarted.restartable (h : Restarted host now putFails loaded store queue store')
    (hsort : sortByCreated host.localeCompare entries = .ok loaded)
    (hlisted : entries.Perm (host.listed store)) (hrec : Recovered store queue store') :
    Restartable host putFails entries store := by
  have hentry : ∀ r ∈ entries, ∃ x, store.lookup r.id = some x ∧ x.reload host.gives = r := by
    intro r hr
    obtain ⟨id, x, hx, rfl⟩ := mem_listed.mp (hlisted.mem_iff.mp hr)
    exact ⟨x, by rwa [reload_id, (h.ids id x hx).1], rfl⟩
  refine ⟨?_, ?_, ?_, ?_, ?_⟩
  · have hall : entries.filter (·.id ≠ "") = entries := by
      refine List.filter_eq_self.mpr fun r hr => ?_
      obtain ⟨x, hx, -⟩ := hentry r hr
      exact decide_eq_true ((h.ids _ x hx).1 ▸ (h.ids _ x hx).2.1)
    rw [sortByCreated, hall] at hsort
    by_cases hthrows : 2 ≤ entries.length ∧ ∃ r ∈ entries, r.createdAt.string = none
    · rw [if_pos hthrows] at hsort
      cases hsort
    · by_cases hlen : entries.length ≤ 1
      · exact .inl hlen
      · exact .inr fun r hr hnone => hthrows ⟨by omega, r, hr, hnone⟩
  · intro r hr hpending
    obtain ⟨x, hx, rfl⟩ := hentry r hr
    obtain ⟨⟨r', hr', hexpired⟩, -⟩ := hrec.expired _ x hx hpending
    rw [h.durable_pending hx hpending] at hr'
    cases hput : putFails (x.reload host.gives).id with
    | false => rfl
    | true =>
      rw [hput, if_pos rfl] at hr'
      obtain rfl := Option.some.inj hr'
      rw [reload_status, hexpired] at hpending
      cases hpending
  · intro loaded' hsort' r hr
    rw [hsort] at hsort'
    obtain rfl := Except.ok.inj hsort'
    have hnone := h.kept hr
    obtain ⟨x, hx, rfl⟩ := (h.mem r).mp (List.mem_of_mem_take hr)
    constructor
    · intro hpending
      obtain ⟨-, r', hfound, -⟩ := hrec.expired _ x hx hpending
      rw [hnone] at hfound
      cases hfound
    · by_contra hscoped
      by_cases hpending : x.status = .pending
      · obtain ⟨-, r', hfound, -⟩ := hrec.expired _ x hx hpending
        rw [hnone] at hfound
        cases hfound
      · have hfound := h.decision_kept hrec hx hpending hscoped
        rw [hnone] at hfound
        cases hfound
  · intro id r hr hpast hscoped
    have hfound := h.decision_kept hrec hr hpast hscoped
    have hmem := List.mem_of_find?_eq_some hfound
    rw [h.history, retained_map] at hmem
    obtain ⟨y, hy, heq⟩ := List.mem_map.mp hmem
    have hyid : y.id = id := by rw [← (h.ids id r hr).1, ← heq, expire_id]
    have hyr : y = r.reload host.gives :=
      List.inj_on_of_nodup_map h.nodup (List.mem_of_mem_drop hy) (h.reload_mem hr)
        (hyid.trans (h.ids id r hr).1.symm)
    have hkept : (r.reload host.gives).expire now = r.reload host.gives := expire_past now hpast
    rw [hyr, hkept] at heq
    exact heq
  · intro loaded' hsort' r hr hpast key hkey x hlast
    rw [hsort] at hsort'
    obtain rfl := Except.ok.inj hsort'
    obtain ⟨y, hy, rfl⟩ := (h.mem r).mp hr
    rw [reload_status] at hpast ⊢
    rw [reload_scopeKey] at hkey
    obtain ⟨scope, hvalid, rfl⟩ := (h.ids _ y hy).2.2 key hkey
    have hindex := h.index (approvalScopeKey scope)
    rw [hlast, Option.map_some] at hindex
    have hsame := hrec.requests _ y scope hy hpast hvalid hkey ⟨false, none, false, none, none⟩
      ⟨none, none, none, none, none, none⟩ "" now false
    rw [requestScoped_past h.pendingByScope hvalid hindex, requestScoped_past (q := remembering y)
      rfl hvalid (remembering_index hpast hkey)] at hsame
    have hanswer : decide ((x.expire now).status = .approved) = decide (y.status = .approved) := by
      simpa using hsame
    rw [decide_eq_decide, expire_status] at hanswer
    rw [← hanswer]
    by_cases hpending : x.status = .pending <;> simp [hpending]

theorem Restarted.recovered (h : Restarted host now putFails loaded store queue store')
    (hsort : sortByCreated host.localeCompare entries = .ok loaded)
    (hlisted : entries.Perm (host.listed store)) (hcond : Restartable host putFails entries store) :
    Recovered store queue store' := by
  have hkept : ∀ {id r}, store.lookup id = some r → r.status = .pending ∨ r.scopeKey ≠ none →
      r.reload host.gives ∈ retained host.options.limit loaded := by
    intro id r hr hneeded
    have hmem := h.reload_mem hr
    rw [← overflow_append_retained host.options.limit loaded] at hmem
    refine (List.mem_append.mp hmem).resolve_left fun hover => ?_
    obtain ⟨hpast, hunscoped⟩ := hcond.room loaded hsort _ hover
    rcases hneeded with hneeded | hneeded
    · exact hpast hneeded
    · exact hneeded hunscoped
  refine ⟨?_, ?_, ?_⟩
  · intro id r hr hpending
    have hid := (h.ids id r hr).1
    have hstatus : ((r.reload host.gives).expire now).status = .expired := by
      rw [expire_status, reload_status, if_pos hpending]
    have hput : putFails id = false := by
      have hentry : r.reload host.gives ∈ entries :=
        hlisted.mem_iff.mpr (mem_listed.mpr ⟨id, r, hr, rfl⟩)
      have hputs := hcond.puts _ hentry hpending
      rwa [reload_id, hid] at hputs
    refine ⟨⟨_, ?_, hstatus⟩, _, ?_, hstatus⟩
    · rw [h.durable_pending hr hpending, hput]
      rfl
    · rw [← hid]
      exact h.find (hkept hr (.inl hpending))
  · intro id r hr hpast hscoped limit approved resolvedBy expected now'
    have hid := (h.ids id r hr).1
    have hfound : queue.find id = some r := by
      have hfind := h.find (hkept hr (.inr hscoped))
      rwa [hcond.unchanged id r hr hpast hscoped, expire_past now hpast, hid] at hfind
    have hbefore : (remembering r).find id = some r := hid ▸ find_remembering r
    rw [resolve_past h.pending, resolve_past (q := remembering r) rfl, ApprovalQueue.resolvePast,
      ApprovalQueue.resolvePast, hfound, hbefore]
  · intro id r scope hr hpast hvalid hkey options details uuid now' autoDeny
    have hret := hkept hr (.inr (by simp [hkey]))
    have hindex := h.index (approvalScopeKey scope)
    cases hlast : lastOf (approvalScopeKey scope) (retained host.options.limit loaded) with
    | none =>
      have hother : (r.reload host.gives).scopeKey ≠ some (approvalScopeKey scope) :=
        lastOf_none.mp hlast _ hret
      exact absurd hkey hother
    | some x =>
      rw [hlast, Option.map_some] at hindex
      have hagree : x.status = .approved ↔ (r.reload host.gives).status = .approved :=
        hcond.agree loaded hsort _ (List.mem_of_mem_drop hret) hpast _ hkey x hlast
      have hanswer : decide ((x.expire now).status = .approved) = decide (r.status = .approved) := by
        rw [decide_eq_decide, expire_status]
        rw [reload_status] at hagree
        rw [← hagree]
        by_cases hpending : x.status = .pending <;> simp [hpending]
      rw [requestScoped_past h.pendingByScope hvalid hindex,
        requestScoped_past (q := remembering r) rfl hvalid (remembering_index hpast hkey), hanswer]

end Restart

/-- The records of a run survive a restart through a reviving store just when its dates are not in
the way. -/
theorem approvals_survive_iff (kind : JsValue.RevivingStore) (parseDate : String → JsDate)
    (options : ApprovalQueueOptions) (localeCompare : String → String → Ordering)
    (events : List ApprovalEvent) (now : Timestamp) (putFails : String → Bool)
    {entries : List ApprovalRecord} (hlisted : entries.Perm
      ((revivingHost kind parseDate options localeCompare).listed
        ((revivingHost kind parseDate options localeCompare).run events).2.store)) :
    Survives (revivingHost kind parseDate options localeCompare) now putFails entries
        ((revivingHost kind parseDate options localeCompare).run events).2.store ↔
      Restartable (revivingHost kind parseDate options localeCompare) putFails entries
        ((revivingHost kind parseDate options localeCompare).run events).2.store := by
  generalize revivingHost kind parseDate options localeCompare = host at hlisted ⊢
  have hrun : Written (host.run events).2 := written_run events
  have hwritten := hrun.store
  generalize (host.run events).2.store = store at hlisted hwritten ⊢
  have hrestarted : ∀ {loaded}, sortByCreated host.localeCompare entries = .ok loaded →
      Restarted host now putFails loaded store
        (loaded.foldl (loadRecord host.options.limit now putFails) (emptyQueue, store)).1
        (loaded.foldl (loadRecord host.options.limit now putFails) (emptyQueue, store)).2 := by
    intro loaded hsort
    obtain ⟨hids, hmem⟩ := loaded_of_store
      (fun id r hr => ⟨(hwritten id r hr).1, (hwritten id r hr).2.1⟩) hlisted hsort
    exact ⟨loaded_of_foldl hids, hids, hmem, hwritten, store_of_foldl hids⟩
  rw [Survives, ApprovalQueue.init]
  constructor
  · rintro ⟨queue, store', hinit, hrec⟩
    obtain ⟨loaded, hsort, hloaded⟩ := except_map_eq_ok.mp hinit
    have h := hrestarted hsort
    rw [hloaded] at h
    exact h.restartable hsort hlisted hrec
  · intro hcond
    have hsort : ∃ loaded, sortByCreated host.localeCompare entries = .ok loaded := by
      have hsome : ¬ (2 ≤ (entries.filter (·.id ≠ "")).length ∧
          ∃ r ∈ entries.filter (·.id ≠ ""), r.createdAt.string = none) := by
        rintro ⟨hlen, r, hr, hnone⟩
        have hle := List.length_filter_le (fun r : ApprovalRecord => decide (r.id ≠ "")) entries
        rcases hcond.texts with hone | htexts
        · omega
        · exact htexts r (List.mem_of_mem_filter hr) hnone
      exact ⟨_, if_neg hsome⟩
    obtain ⟨loaded, hsort⟩ := hsort
    refine ⟨_, _, by rw [hsort]; rfl, (hrestarted hsort).recovered hsort hlisted hcond⟩

/-- Whether the store gives each member of a record back as it was. -/
def keepsRecord (kind : JsValue.RevivingStore) (r : ApprovalRecord) : Bool :=
  [r.tool, r.input, r.rule, r.reasons, r.jobId, r.taskId, r.executionId, r.agentId, r.scope,
    r.createdAt, r.expiresAt, r.resolvedAt, r.resolvedBy].all fun v => v.isUndefined || kind.keeps v

theorem reload_of_keepsRecord {kind : JsValue.RevivingStore} {parseDate : String → JsDate}
    (hparse : ∀ t, parseDate (isoText t) = some t) {r : ApprovalRecord}
    (h : keepsRecord kind r = true) : r.reload (kind.reload parseDate) = r := by
  have member : ∀ v : JsValue, (v.isUndefined || kind.keeps v) = true →
      (if v.isUndefined then v else kind.reload parseDate v) = v := by
    intro v hv
    by_cases hdef : v.isUndefined = true
    · rw [if_pos hdef]
    · rw [if_neg hdef]
      exact (kind.reload_eq_self_iff hparse v).mpr (by simpa [hdef] using hv)
  simp only [keepsRecord, List.all_cons, List.all_nil, Bool.and_true, Bool.and_eq_true] at h
  obtain ⟨h₁, h₂, h₃, h₄, h₅, h₆, h₇, h₈, h₉, h₁₀, h₁₁, h₁₂, h₁₃⟩ := h
  simp only [ApprovalRecord.reload, member _ h₁, member _ h₂, member _ h₃, member _ h₄, member _ h₅,
    member _ h₆, member _ h₇, member _ h₈, member _ h₉, member _ h₁₀, member _ h₁₁, member _ h₁₂,
    member _ h₁₃]

def retryScope : ApprovalScope := { deployScope with attempt := .finite 1 }

theorem late_valid : -maxTimeMs ≤ 253402300800000 ∧ 253402300800000 ≤ maxTimeMs := by decide

/-- The year 10000, whose dates the store leaves as they are. -/
def lateTime : Timestamp := ⟨253402300800000, late_valid⟩

/-- An approval that was written, and a request that was waiting when its process ended. -/
def lateRequests : List ApprovalEvent :=
  [.requestScoped deployScope ⟨none, none, none, none, none, none⟩ "1" lateTime false, .write false,
    .resolve "appr-1" true (some "ada") none lateTime, .write false,
    .requestScoped retryScope ⟨none, none, none, none, none, none⟩ "2" lateTime false, .write false]

noncomputable def lateHost : ApprovalHost :=
  revivingHost .jsonFile Checkpoints.parseIso plainHost.options compareStrings

/-- What the restart depends on, of the records that are there. -/
def lateRecords (entries : List ApprovalRecord) : Bool :=
  entries.length = 2 && (entries.map (·.status)).count .approved = 1 &&
    entries.all fun r => r.createdAt.string ≠ none &&
      entries.all fun x => x.scopeKey ≠ r.scopeKey || (x.status = .approved ↔ r.status = .approved)

theorem approvals_survive_iff_late : ∃ entries store,
    entries = lateHost.listed store ∧ store = (lateHost.run lateRequests).2.store ∧
      entries.length = 2 ∧ (entries.map (·.status)).count .approved = 1 ∧
      Survives lateHost lateTime (fun _ => false) entries store := by
  have hrecords : lateRecords (lateHost.listed (lateHost.run lateRequests).2.store) = true := by
    decide +kernel
  have hkept : ((lateHost.run lateRequests).2.store.entries.map fun kv => kv.2).all
      (keepsRecord .jsonFile) = true := by
    decide +kernel
  generalize hentries : lateHost.listed (lateHost.run lateRequests).2.store = entries at hrecords
  simp only [lateRecords, Bool.and_eq_true, decide_eq_true_eq, List.all_eq_true,
    Bool.or_eq_true] at hrecords
  obtain ⟨⟨hlength, hcount⟩, hall⟩ := hrecords
  refine ⟨entries, _, hentries.symm, rfl, hlength, hcount, ?_⟩
  refine (approvals_survive_iff .jsonFile Checkpoints.parseIso plainHost.options compareStrings
    lateRequests lateTime (fun _ => false) (by rw [← hentries]; rfl)).mpr ?_
  have hloaded : ∀ {loaded}, sortByCreated compareStrings entries = .ok loaded →
      loaded.length ≤ 2 ∧ ∀ r ∈ loaded, r ∈ entries := by
    intro loaded hsort
    have hperm := sortByCreated_perm hsort
    refine ⟨?_, fun r hr => List.mem_of_mem_filter (hperm.mem_iff.mp hr)⟩
    rw [hperm.length_eq, ← hlength]
    exact List.length_filter_le _ _
  refine ⟨.inr fun r hr => (hall r hr).1, fun _ _ _ => rfl, ?_, ?_, ?_⟩
  · intro loaded hsort r hr
    have hlen := (hloaded hsort).1
    have hlimit : (revivingHost .jsonFile Checkpoints.parseIso plainHost.options
        compareStrings).options.limit = 500 := rfl
    rw [overflow, hlimit, show loaded.length - 500 = 0 by omega] at hr
    cases hr
  · intro id r hr _ _
    exact reload_of_keepsRecord Checkpoints.parseIso_isoText (List.all_eq_true.mp hkept r
      (List.mem_map.mpr ⟨⟨id, r⟩, AList.mem_lookup_iff.mp hr, rfl⟩))
  · intro loaded hsort r hr _ key hkey x hx
    obtain ⟨hmem, hxkey⟩ := lastOf_some hx
    have hx' := (hloaded hsort).2 x (List.mem_of_mem_drop hmem)
    have hsame := (hall r ((hloaded hsort).2 r hr)).2 x hx'
    simpa [hkey, hxkey] using hsame

/-- `new Date(s)` on the two texts of a request made at midnight. -/
def parseNight (s : String) : JsDate :=
  if s = isoText midnight then some midnight else JsDate.ofMs (30 * 60000)

def jsonFileHost : ApprovalHost := revivingHost .jsonFile parseNight plainHost.options compareStrings

/-- Two requests that were written. -/
def twoRequests : List ApprovalEvent :=
  [requestDeploy "1", .write false,
    .requestScoped retryScope ⟨none, none, none, none, none, none⟩ "2" midnight false, .write false]

/-- Their dates come back without `localeCompare`, and `init` throws. -/
theorem approvals_unloadable : ¬ Survives jsonFileHost midnight (fun _ => false)
    (jsonFileHost.listed (jsonFileHost.run twoRequests).2.store)
    (jsonFileHost.run twoRequests).2.store := by
  rintro ⟨queue, store', hinit, -⟩
  obtain ⟨loaded, hsort, -⟩ := except_map_eq_ok.mp hinit
  have hthrows : (sortByCreated jsonFileHost.localeCompare
      (jsonFileHost.listed (jsonFileHost.run twoRequests).2.store)).toBool = false := by
    decide +kernel
  rw [hsort] at hthrows
  cases hthrows

end Wazir.Core
