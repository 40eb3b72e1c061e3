import Wazir.Core.ApprovalLoad

/-! One decision for each approval scope: over a run of the queue, and over its restarts. -/

namespace Wazir.Core

open ApprovalHost

def askedIn (moments : List Moment) : List PendingApprovalRequest :=
  moments.flatMap fun m => m.effect.asked

def decidedIn (moments : List Moment) : List Decision := moments.flatMap fun m => m.effect.decided

/-- Every scope is put to a human at most once and decided at most once, the decision answers every
later request of the scope, and a request is only ever answered by a decision of its own scope. -/
structure OneDecision (moments : List Moment) : Prop where
  askedOnce : ((askedIn moments).filterMap (·.scope)).Nodup
  decidedOnce : ∀ item ∈ askedIn moments, item.scope ≠ none →
    ((decidedIn moments).filter (·.id = item.id)).length ≤ 1
  sameAnswer : ∀ before m after, moments = before ++ m :: after →
    ∀ scope details uuid now autoDeny, m.event = .requestScoped scope details uuid now autoDeny →
    ∀ item ∈ askedIn before, item.scope = some scope →
    ∀ d ∈ decidedIn before, d.id = item.id →
      m.effect.asked = [] ∧ m.effect.answer = .settled d.approved
  ownPromise : ∀ m ∈ moments, ∀ scope details uuid now autoDeny id,
    m.event = .requestScoped scope details uuid now autoDeny → m.effect.answer = .promised id →
    ∃ item ∈ askedIn moments, item.id = id ∧ item.scope = some scope
  ownAnswer : ∀ before m after, moments = before ++ m :: after →
    ∀ scope details uuid now autoDeny answer,
    m.event = .requestScoped scope details uuid now autoDeny → m.effect.answer = .settled answer →
    autoDeny = true ∧ answer = false ∨
      ∃ item ∈ askedIn before, item.scope = some scope ∧
        ∃ d ∈ decidedIn before, d.id = item.id ∧ d.approved = answer
  ownResolution : ∀ m ∈ moments, ∀ id approved resolvedBy expected now record,
    m.event = .resolve id approved resolvedBy (some expected) now →
    m.effect.answer = .resolution (.ok record) →
    ∃ item ∈ askedIn moments, item.id = id ∧ scopeMatches item.scope expected = true

/-! The condition: decisions are neither dropped, nor misattributed, nor lost by a restart. -/

/-- What overflows carries no scope. -/
def Spared (limit : ℕ) (keys : List (Option String)) : Prop :=
  ∀ key ∈ overflow limit keys, key = none

instance (limit : ℕ) (keys : List (Option String)) : Decidable (Spared limit keys) :=
  inferInstanceAs (Decidable (∀ key ∈ overflow limit keys, key = none))

/-- The record of the item finds room in the history. -/
def Room (limit : ℕ) (item : PendingApprovalRequest) (q : ApprovalQueue) : Prop :=
  Spared limit ((q.history.filter (·.id ≠ item.id)).map (·.scopeKey) ++ [item.scopeKey])

instance (limit : ℕ) (item : PendingApprovalRequest) (q : ApprovalQueue) :
    Decidable (Room limit item q) :=
  inferInstanceAs (Decidable (Spared limit _))

/-- An approval that is not a timeout's. -/
def Attributed (item : PendingApprovalRequest) (approved : Bool) (resolvedBy : Option String) :
    Prop :=
  item.scopeKey ≠ none → approved = true → resolvedBy ≠ some "timeout"

instance (item : PendingApprovalRequest) (approved : Bool) (resolvedBy : Option String) :
    Decidable (Attributed item approved resolvedBy) :=
  inferInstanceAs (Decidable (item.scopeKey ≠ none → approved = true → resolvedBy ≠ some "timeout"))

/-- The store has every scoped request that is pending and every scoped decision, and a fresh queue
can load it whole. -/
def Restorable (host : ApprovalHost) (s : ApprovalSystem) : Prop :=
  (∀ kv ∈ s.queue.pending.entries, kv.2.scopeKey ≠ none →
    (s.store.lookup kv.2.id).any fun r => r.scopeKey = kv.2.scopeKey) ∧
  (∀ kv ∈ s.queue.decidedScopes.entries,
    (s.store.lookup kv.2.id).any fun r => r.scopeKey = some kv.1 ∧ r.status = kv.2.status) ∧
  match sortByCreated host.localeCompare (host.listed s.store) with
  | .ok loaded => Spared host.options.limit (loaded.map (·.scopeKey))
  | .error _ => False

instance (host : ApprovalHost) (s : ApprovalSystem) : Decidable (Restorable host s) :=
  @instDecidableAnd _ _ _ <| @instDecidableAnd _ _ _ <|
    match sortByCreated host.localeCompare (host.listed s.store) with
    | .ok _ => inferInstanceAs (Decidable (Spared host.options.limit _))
    | .error _ => inferInstanceAs (Decidable False)

def Condition (host : ApprovalHost) (event : ApprovalEvent) (s : ApprovalSystem) : Prop :=
  match event with
  | .requestScoped scope details uuid now _ =>
    (ApprovalQueue.scopedItem host.options scope details uuid now).expiresAt ≠ some none
  | .resolve id approved resolvedBy expected now =>
    match s.queue.pending.lookup id with
    | none => True
    | some item =>
      if ApprovalQueue.lapsed item now then Room host.options.limit item s.queue
      else if expected.any fun e => !scopeMatches item.scope e then True
      else Room host.options.limit item s.queue ∧ Attributed item approved resolvedBy
  | .settle id approved resolvedBy _ =>
    match s.queue.pending.lookup id with
    | none => True
    | some item => Room host.options.limit item s.queue ∧ Attributed item approved resolvedBy
  | .restart _ listFails _ => listFails = false ∧ Restorable host s
  | .enqueue .. | .write _ => True

instance (host : ApprovalHost) (event : ApprovalEvent) (s : ApprovalSystem) :
    Decidable (Condition host event s) :=
  match event with
  | .requestScoped scope details uuid now _ => inferInstanceAs (Decidable
      ((ApprovalQueue.scopedItem host.options scope details uuid now).expiresAt ≠ some none))
  | .resolve id approved resolvedBy expected now =>
    match h : s.queue.pending.lookup id with
    | none => .isTrue (by simp [Condition, h])
    | some item => decidable_of_iff
        (if ApprovalQueue.lapsed item now then Room host.options.limit item s.queue
        else if expected.any fun e => !scopeMatches item.scope e then True
        else Room host.options.limit item s.queue ∧ Attributed item approved resolvedBy)
        (by simp [Condition, h])
  | .settle id approved resolvedBy _ =>
    match h : s.queue.pending.lookup id with
    | none => .isTrue (by simp [Condition, h])
    | some item => decidable_of_iff
        (Room host.options.limit item s.queue ∧ Attributed item approved resolvedBy)
        (by simp [Condition, h])
  | .restart _ listFails _ => inferInstanceAs (Decidable (listFails = false ∧ Restorable host s))
  | .enqueue .. => inferInstanceAs (Decidable True)
  | .write _ => inferInstanceAs (Decidable True)

/-! What the queue, its store and the run so far hold for each scope. -/

/-- The records of the key that the store has or will get. -/
structure Filed (s : ApprovalSystem) (key : String) (p : ApprovalRecord → Prop) : Prop where
  unwritten : ∀ r ∈ s.queue.unwritten, r.scopeKey = some key → p r
  store : ∀ id r, s.store.lookup id = some r → r.scopeKey = some key → p r

/-- No request of the key is pending. -/
structure Idle (q : ApprovalQueue) (key : String) : Prop where
  pending : ∀ id item, q.pending.lookup id = some item → item.scopeKey ≠ some key
  inflight : q.pendingByScope.lookup key = none

/-- A key is fresh, or waits for the answer to its one request, or has its one decision. -/
inductive Standing (s : ApprovalSystem) (asked : List PendingApprovalRequest)
    (decided : List Decision) (key : String) : Prop
  | fresh (nobody : ∀ item ∈ asked, item.scopeKey ≠ some key)
      (undecided : ∀ d ∈ decided, d.scopeKey ≠ some key) (idle : Idle s.queue key)
      (index : s.queue.decidedScopes.lookup key = none) (filed : Filed s key fun _ => False)
  | waiting (item : PendingApprovalRequest) (once : asked.filter (·.scopeKey = some key) = [item])
      (undecided : ∀ d ∈ decided, d.scopeKey ≠ some key) (writable : item.expiresAt ≠ some none)
      (pending : s.queue.pending.lookup item.id = some item)
      (only : ∀ id x, s.queue.pending.lookup id = some x → x.scopeKey = some key → id = item.id)
      (inflight : s.queue.pendingByScope.lookup key = some item.id)
      (index : s.queue.decidedScopes.lookup key = none)
      (filed : Filed s key fun r => r.id = item.id ∧ r.status = .pending)
  | settled (item : PendingApprovalRequest) (record : ApprovalRecord)
      (once : asked.filter (·.scopeKey = some key) = [item])
      (decision : decided.filter (·.scopeKey = some key) =
        [⟨item.id, some key, record.status = .approved⟩]) (idle : Idle s.queue key)
      (index : s.queue.decidedScopes.lookup key = some record) (own : record.id = item.id)
      (past : record.status ≠ .pending)
      (filed : Filed s key fun r =>
        r.id = item.id ∧ (r.status = .pending ∨ r.status = record.status))

/-- Every id in the system is that of a request of the run, with its scope. -/
structure Known (s : ApprovalSystem) (asked : List PendingApprovalRequest)
    (decided : List Decision) : Prop where
  bound : ∀ item ∈ asked, item.id ≠ "" ∧ item.scopeKey = item.scope.map approvalScopeKey ∧
    ∀ scope, item.scope = some scope → validateScope scope = .ok ()
  pending : ∀ id item, s.queue.pending.lookup id = some item → item.id = id ∧ item ∈ asked
  unwritten : ∀ r ∈ s.queue.unwritten, ∃ item ∈ asked, item.id = r.id ∧ item.scopeKey = r.scopeKey
  store : ∀ id r, s.store.lookup id = some r →
    r.id = id ∧ ∃ item ∈ asked, item.id = r.id ∧ item.scopeKey = r.scopeKey
  decisions : ∀ d ∈ decided, ∃ item ∈ asked, item.id = d.id ∧ item.scopeKey = d.scopeKey

structure Invariant (s : ApprovalSystem) (asked : List PendingApprovalRequest)
    (decided : List Decision) : Prop extends Known s asked decided where
  standing : ∀ key, Standing s asked decided key

/-- What a step does not touch of a key. -/
structure Untouched (s s' : ApprovalSystem) (key : String) : Prop where
  pending : ∀ id item, item.scopeKey = some key →
    (s'.queue.pending.lookup id = some item ↔ s.queue.pending.lookup id = some item)
  inflight : s'.queue.pendingByScope.lookup key = s.queue.pendingByScope.lookup key
  index : s'.queue.decidedScopes.lookup key = s.queue.decidedScopes.lookup key
  filed : ∀ p, Filed s key p → Filed s' key p

section Frame

variable {s s' : ApprovalSystem} {asked new : List PendingApprovalRequest}
  {decided made : List Decision} {key : String}

theorem filter_append_other {α : Type} {p : α → Bool} {l more : List α}
    (h : ∀ a ∈ more, p a = false) : (l ++ more).filter p = l.filter p := by
  have hmore : more.filter p = [] := List.filter_eq_nil_iff.mpr fun a ha => by simp [h a ha]
  rw [List.filter_append, hmore, List.append_nil]

theorem Untouched.idle (h : Untouched s s' key) (hidle : Idle s.queue key) : Idle s'.queue key where
  pending id item hitem hkey := hidle.pending id item ((h.pending id item hkey).mp hitem) hkey
  inflight := h.inflight.trans hidle.inflight

theorem Standing.frame (hs : Standing s asked decided key) (h : Untouched s s' key)
    (hnew : ∀ item ∈ new, item.scopeKey ≠ some key) (hmade : ∀ d ∈ made, d.scopeKey ≠ some key) :
    Standing s' (asked ++ new) (decided ++ made) key := by
  have hasked : (asked ++ new).filter (·.scopeKey = some key) =
      asked.filter (·.scopeKey = some key) :=
    filter_append_other fun item hitem => decide_eq_false (hnew item hitem)
  have hundecided : (∀ d ∈ decided, d.scopeKey ≠ some key) →
      ∀ d ∈ decided ++ made, d.scopeKey ≠ some key := by
    intro hd d hmem
    rcases List.mem_append.mp hmem with hmem | hmem
    · exact hd d hmem
    · exact hmade d hmem
  cases hs with
  | fresh nobody undecided idle index filed =>
    refine .fresh ?_ (hundecided undecided) (h.idle idle) (h.index.trans index) (h.filed _ filed)
    intro item hitem
    rcases List.mem_append.mp hitem with hitem | hitem
    · exact nobody item hitem
    · exact hnew item hitem
  | waiting item once undecided writable pending only inflight index filed =>
    have hscope : item.scopeKey = some key := by
      have hmem : item ∈ asked.filter (·.scopeKey = some key) := by simp [once]
      simpa using (List.mem_filter.mp hmem).2
    refine .waiting item (hasked.trans once) (hundecided undecided) writable
      ((h.pending _ _ hscope).mpr pending) ?_ (h.inflight.trans inflight) (h.index.trans index)
      (h.filed _ filed)
    intro id x hx hkey
    exact only id x ((h.pending id x hkey).mp hx) hkey
  | settled item record once decision idle index own past filed =>
    refine .settled item record (hasked.trans once) ?_ (h.idle idle) (h.index.trans index) own past
      (h.filed _ filed)
    rw [filter_append_other fun d hd => decide_eq_false (hmade d hd), decision]

end Frame

/-! A new request. -/

variable {item : PendingApprovalRequest} {resolvedBy : Option String} {r : ApprovalRecord}

theorem toRecord_ok {status : ApprovalStatus} {resolvedAt : Option Timestamp}
    (h : toRecord item status resolvedAt resolvedBy = .ok r) :
    r.id = item.id ∧ r.scopeKey = item.scopeKey ∧ r.status = status := by
  obtain ⟨expiresAt, -, rfl⟩ := except_map_eq_ok.mp h
  exact ⟨rfl, rfl, rfl⟩

theorem toRecord_total (h : item.expiresAt ≠ some none) (status : ApprovalStatus)
    (resolvedAt : Option Timestamp) (resolvedBy : Option String) :
    ∃ r, toRecord item status resolvedAt resolvedBy = .ok r := by
  rw [toRecord]
  cases hexpires : item.expiresAt with
  | none => exact ⟨_, rfl⟩
  | some date =>
    cases date with
    | none => exact absurd hexpires h
    | some t => exact ⟨_, rfl⟩

/-- A request goes into `pending`, and its record, where it has one, is to be written. -/
theorem createPending_spec (item : PendingApprovalRequest) (q : ApprovalQueue) :
    ∃ records, (q.createPending item).2 =
        { q with pending := q.pending.insert item.id item, unwritten := q.unwritten ++ records } ∧
      (∀ r ∈ records, r.id = item.id ∧ r.scopeKey = item.scopeKey ∧ r.status = .pending) ∧
      (q.createPending item).1.asked = [item] ∧ (q.createPending item).1.decided = [] ∧
      (item.expiresAt ≠ some none → (q.createPending item).1.answer = .promised item.id) := by
  rw [ApprovalQueue.createPending]
  cases h : toRecord item .pending none none with
  | error e =>
    refine ⟨[], by simp, by simp, rfl, rfl, fun hexpires => ?_⟩
    obtain ⟨r, hr⟩ := toRecord_total hexpires .pending none none
    rw [h] at hr
    cases hr
  | ok record => exact ⟨[record], rfl, by simpa using toRecord_ok h, rfl, rfl, fun _ => rfl⟩

/-- The system after a new request; `scopes` is what becomes of `pendingByScope`. -/
def withRequest (s : ApprovalSystem) (item : PendingApprovalRequest) (records : List ApprovalRecord)
    (scopes : Table String String) : ApprovalSystem :=
  { s with queue := { s.queue with
      pending := s.queue.pending.insert item.id item
      pendingByScope := scopes
      unwritten := s.queue.unwritten ++ records } }

section Ask

variable {s : ApprovalSystem} {asked : List PendingApprovalRequest} {decided : List Decision}
  {item : PendingApprovalRequest} {records : List ApprovalRecord} {scopes : Table String String}

theorem Known.fresh (h : Known s asked decided)
    (hids : ((asked ++ [item]).map PendingApprovalRequest.id).Nodup) {id : String}
    {x : PendingApprovalRequest} (hx : s.queue.pending.lookup id = some x) : id ≠ item.id := by
  rintro rfl
  obtain ⟨hid, hmem⟩ := h.pending _ x hx
  rw [List.map_append, List.nodup_append] at hids
  exact hids.2.2 _ (List.mem_map_of_mem hmem) _ (List.mem_singleton.mpr rfl) hid

theorem Known.ask (h : Known s asked decided)
    (hbound : item.id ≠ "" ∧ item.scopeKey = item.scope.map approvalScopeKey ∧
      ∀ scope, item.scope = some scope → validateScope scope = .ok ())
    (hrecords : ∀ r ∈ records, r.id = item.id ∧ r.scopeKey = item.scopeKey ∧ r.status = .pending) :
    Known (withRequest s item records scopes) (asked ++ [item]) decided where
  bound x hx := by
    rcases List.mem_append.mp hx with hx | hx
    · exact h.bound x hx
    · rw [List.mem_singleton.mp hx]
      exact hbound
  pending id x hx := by
    change (s.queue.pending.insert item.id item).lookup id = some x at hx
    by_cases hid : id = item.id
    · rw [hid, AList.lookup_insert] at hx
      obtain rfl := Option.some.inj hx
      exact ⟨hid.symm, List.mem_append_right _ (List.mem_singleton.mpr rfl)⟩
    · rw [AList.lookup_insert_ne hid] at hx
      exact ⟨(h.pending id x hx).1, List.mem_append_left _ (h.pending id x hx).2⟩
  unwritten r hr := by
    rcases List.mem_append.mp hr with hr | hr
    · obtain ⟨x, hx, heq⟩ := h.unwritten r hr
      exact ⟨x, List.mem_append_left _ hx, heq⟩
    · obtain ⟨hid, hkey, -⟩ := hrecords r hr
      exact ⟨item, List.mem_append_right _ (List.mem_singleton.mpr rfl), hid.symm, hkey.symm⟩
  store id r hr := by
    obtain ⟨hid, x, hx, heq⟩ := h.store id r hr
    exact ⟨hid, x, List.mem_append_left _ hx, heq⟩
  decisions d hd := by
    obtain ⟨x, hx, heq⟩ := h.decisions d hd
    exact ⟨x, List.mem_append_left _ hx, heq⟩

theorem untouched_ask {key : String} (hkey : item.scopeKey ≠ some key)
    (hfresh : s.queue.pending.lookup item.id = none)
    (hrecords : ∀ r ∈ records, r.id = item.id ∧ r.scopeKey = item.scopeKey ∧ r.status = .pending)
    (hscopes : scopes.lookup key = s.queue.pendingByScope.lookup key) :
    Untouched s (withRequest s item records scopes) key where
  pending id x hx := by
    change (s.queue.pending.insert item.id item).lookup id = some x ↔ _
    by_cases hid : id = item.id
    · rw [hid, AList.lookup_insert, hfresh]
      constructor
      · rintro ⟨⟩
        exact absurd hx hkey
      · rintro ⟨⟩
    · rw [AList.lookup_insert_ne hid]
  inflight := hscopes
  index := rfl
  filed p h := by
    refine ⟨?_, h.store⟩
    intro r hr hrkey
    rcases List.mem_append.mp hr with hr | hr
    · exact h.unwritten r hr hrkey
    · exact absurd ((hrecords r hr).2.1 ▸ hrkey) hkey

/-- A request without a scope. -/
theorem Invariant.ask (h : Invariant s asked decided)
    (hids : ((asked ++ [item]).map PendingApprovalRequest.id).Nodup)
    (hbound : item.id ≠ "" ∧ item.scopeKey = item.scope.map approvalScopeKey ∧
      ∀ scope, item.scope = some scope → validateScope scope = .ok ())
    (hrecords : ∀ r ∈ records, r.id = item.id ∧ r.scopeKey = item.scopeKey ∧ r.status = .pending)
    (hkey : item.scopeKey = none) :
    Invariant (withRequest s item records s.queue.pendingByScope) (asked ++ [item]) decided := by
  have hfresh : s.queue.pending.lookup item.id = none := by
    cases hx : s.queue.pending.lookup item.id with
    | none => rfl
    | some x => exact absurd rfl (h.toKnown.fresh hids hx)
  refine ⟨h.toKnown.ask hbound hrecords, fun key => ?_⟩
  have hother : item.scopeKey ≠ some key := by simp [hkey]
  have hstanding : Standing (withRequest s item records s.queue.pendingByScope)
      (asked ++ [item]) (decided ++ []) key :=
    (h.standing key).frame (untouched_ask hother hfresh hrecords rfl) (by simpa using hother)
      (by simp)
  rwa [List.append_nil] at hstanding

/-- The first request of a scope. -/
theorem Invariant.askScoped (h : Invariant s asked decided)
    (hids : ((asked ++ [item]).map PendingApprovalRequest.id).Nodup)
    (hbound : item.id ≠ "" ∧ item.scopeKey = item.scope.map approvalScopeKey ∧
      ∀ scope, item.scope = some scope → validateScope scope = .ok ())
    (hrecords : ∀ r ∈ records, r.id = item.id ∧ r.scopeKey = item.scopeKey ∧ r.status = .pending)
    (hexpires : item.expiresAt ≠ some none) {key : String} (hkey : item.scopeKey = some key)
    (hinflight : s.queue.pendingByScope.lookup key = none)
    (hindex : s.queue.decidedScopes.lookup key = none) :
    Invariant (withRequest s item records (s.queue.pendingByScope.insert key item.id))
      (asked ++ [item]) decided := by
  have hfresh : s.queue.pending.lookup item.id = none := by
    cases hx : s.queue.pending.lookup item.id with
    | none => rfl
    | some x => exact absurd rfl (h.toKnown.fresh hids hx)
  refine ⟨h.toKnown.ask hbound hrecords, fun k => ?_⟩
  by_cases hk : k = key
  · subst hk
    cases h.standing k with
    | waiting x once undecided writable pending only inflight index filed =>
      rw [hinflight] at inflight
      cases inflight
    | settled x record once decision idle index own past filed =>
      rw [hindex] at index
      cases index
    | fresh nobody undecided idle index filed =>
      refine .waiting item ?_ undecided hexpires (AList.lookup_insert _) ?_
        (AList.lookup_insert _) index ?_
      · have hnone : asked.filter (·.scopeKey = some k) = [] :=
          List.filter_eq_nil_iff.mpr fun x hx => by simpa using nobody x hx
        simp [List.filter_append, hnone, hkey]
      · intro id x hx hxkey
        by_contra hne
        refine idle.pending id x ?_ hxkey
        rwa [← @AList.lookup_insert_ne _ _ _ _ _ item s.queue.pending hne]
      · refine ⟨?_, fun id r hr hrkey => (filed.store id r hr hrkey).elim⟩
        intro r hr hrkey
        rcases List.mem_append.mp hr with hr | hr
        · exact (filed.unwritten r hr hrkey).elim
        · exact ⟨(hrecords r hr).1, (hrecords r hr).2.2⟩
  · have hother : item.scopeKey ≠ some k := by
      rw [hkey]
      exact fun heq => hk (Option.some.inj heq).symm
    have hstanding : Standing (withRequest s item records (s.queue.pendingByScope.insert key item.id))
        (asked ++ [item]) (decided ++ []) k :=
      (h.standing k).frame (untouched_ask hother hfresh hrecords (AList.lookup_insert_ne hk))
        (by simpa using hother) (by simp)
    rwa [List.append_nil] at hstanding

end Ask

/-! An answer. -/

theorem foldl_dropDecided {dropped : List ApprovalRecord} (decided : Table String ApprovalRecord)
    (h : ∀ r ∈ dropped, r.scopeKey = none) : dropped.foldl dropDecided decided = decided := by
  induction dropped with
  | nil => rfl
  | cons r rest ih =>
    rw [List.forall_mem_cons] at h
    rw [List.foldl_cons, dropDecided, h.1]
    exact ih h.2

/-- The record finds room, so that nothing leaves the index. -/
theorem remember_room {limit : ℕ} {q : ApprovalQueue} {record : ApprovalRecord}
    (h : Spared limit ((q.history.filter (·.id ≠ record.id)).map (·.scopeKey) ++ [record.scopeKey])) :
    (q.remember limit record).decidedScopes = indexDecided q.decidedScopes record := by
  refine foldl_dropDecided _ fun r hr => h _ ?_
  have hmap : (q.history.filter (·.id ≠ record.id)).map (·.scopeKey) ++ [record.scopeKey] =
      (q.history.filter (·.id ≠ record.id) ++ [record]).map (·.scopeKey) := by
    rw [List.map_append, List.map_singleton]
  rw [hmap, overflow_map]
  exact List.mem_map_of_mem hr

/-- What settling a request comes to. -/
structure SettleSpec (item : PendingApprovalRequest) (approved : Bool) (resolvedBy : Option String)
    (q q' : ApprovalQueue) (record : ApprovalRecord) : Prop where
  id : record.id = item.id
  scopeKey : record.scopeKey = item.scopeKey
  past : record.status ≠ .pending
  answer : Attributed item approved resolvedBy → item.scopeKey ≠ none →
    decide (record.status = .approved) = approved
  pending : q'.pending = q.pending.erase item.id
  inflight : ∀ key, q'.pendingByScope.lookup key =
    if item.scopeKey = some key then none else q.pendingByScope.lookup key
  index : ∀ key, q'.decidedScopes.lookup key =
    if item.scopeKey = some key then some record else q.decidedScopes.lookup key
  unwritten : q'.unwritten = q.unwritten ++ [record]

variable {approved : Bool}

/-- The scopes that still wait once the request has left the queue. -/
def waitingScopes (item : PendingApprovalRequest) (q : ApprovalQueue) : Table String String :=
  match item.scopeKey with
  | some key => q.pendingByScope.erase key
  | none => q.pendingByScope

theorem settle_spec {limit : ℕ} {now : Timestamp} {q : ApprovalQueue}
    (hexpires : item.expiresAt ≠ some none) (hroom : Room limit item q) :
    ∃ record, (q.settle limit item approved resolvedBy now).1 = .ok record ∧
      SettleSpec item approved resolvedBy q (q.settle limit item approved resolvedBy now).2
        record := by
  set status : ApprovalStatus := if resolvedBy = some "timeout" then .expired
    else if approved then .approved else .denied with hstatus
  obtain ⟨record, hrecord⟩ := toRecord_total hexpires status (some now)
    (some (resolvedBy.getD (if approved then "approver" else "approver_denied")))
  obtain ⟨hid, hkey, hrec⟩ := toRecord_ok hrecord
  have hpast : record.status ≠ .pending := by
    rw [hrec, hstatus]
    split_ifs <;> exact ApprovalStatus.noConfusion
  let left : ApprovalQueue := { q with
    pending := q.pending.erase item.id
    pendingByScope := waitingScopes item q }
  have hout : q.settle limit item approved resolvedBy now =
      (.ok record, { left.remember limit record with unwritten := q.unwritten ++ [record] }) := by
    simp only [ApprovalQueue.settle, ← hstatus, hrecord]
    rfl
  rw [hout]
  refine ⟨record, rfl, hid, hkey, hpast, ?_, rfl, fun key => ?_, fun key => ?_, rfl⟩
  · intro hattributed hscoped
    rw [hrec, hstatus]
    cases approved with
    | true => simp [hattributed hscoped rfl]
    | false => split_ifs <;> simp_all
  · change (waitingScopes item q).lookup key = _
    unfold waitingScopes
    cases hscope : item.scopeKey with
    | none => rfl
    | some k =>
      by_cases hk : k = key
      · subst hk
        rw [if_pos rfl]
        exact AList.lookup_erase _ _
      · rw [if_neg fun heq => hk (Option.some.inj heq)]
        exact AList.lookup_erase_ne (Ne.symm hk)
  · have hspared : Spared limit
        ((left.history.filter (·.id ≠ record.id)).map (·.scopeKey) ++ [record.scopeKey]) := by
      rw [hid, hkey]
      exact hroom
    change (left.remember limit record).decidedScopes.lookup key = _
    rw [remember_room hspared, lookup_indexDecided hpast, hkey]

section Settle

variable {s : ApprovalSystem} {asked : List PendingApprovalRequest} {decided : List Decision}
  {item : PendingApprovalRequest} {approved : Bool} {resolvedBy : Option String}
  {queue : ApprovalQueue} {record : ApprovalRecord}

theorem untouched_settle {key : String}
    (hspec : SettleSpec item approved resolvedBy s.queue queue record)
    (hpending : s.queue.pending.lookup item.id = some item) (hkey : item.scopeKey ≠ some key) :
    Untouched s { s with queue := queue } key where
  pending id x hx := by
    change queue.pending.lookup id = some x ↔ _
    rw [hspec.pending]
    by_cases hid : id = item.id
    · rw [hid, AList.lookup_erase, hpending]
      constructor
      · rintro ⟨⟩
      · rintro ⟨⟩
        exact absurd hx hkey
    · rw [AList.lookup_erase_ne hid]
  inflight := (hspec.inflight key).trans (if_neg hkey)
  index := (hspec.index key).trans (if_neg hkey)
  filed p h := by
    refine ⟨?_, h.store⟩
    intro r hr hrkey
    change r ∈ queue.unwritten at hr
    rw [hspec.unwritten] at hr
    rcases List.mem_append.mp hr with hr | hr
    · exact h.unwritten r hr hrkey
    · rw [List.mem_singleton.mp hr, hspec.scopeKey] at hrkey
      exact absurd hrkey hkey

theorem Known.settle (h : Known s asked decided)
    (hspec : SettleSpec item approved resolvedBy s.queue queue record)
    (hpending : s.queue.pending.lookup item.id = some item) :
    Known { s with queue := queue } asked (decided ++ [⟨item.id, item.scopeKey, approved⟩]) where
  bound := h.bound
  pending id x hx := by
    change queue.pending.lookup id = some x at hx
    rw [hspec.pending] at hx
    by_cases hid : id = item.id
    · rw [hid, AList.lookup_erase] at hx
      cases hx
    · rw [AList.lookup_erase_ne hid] at hx
      exact h.pending id x hx
  unwritten r hr := by
    change r ∈ queue.unwritten at hr
    rw [hspec.unwritten] at hr
    rcases List.mem_append.mp hr with hr | hr
    · exact h.unwritten r hr
    · rw [List.mem_singleton.mp hr, hspec.id, hspec.scopeKey]
      exact ⟨item, (h.pending _ _ hpending).2, rfl, rfl⟩
  store := h.store
  decisions d hd := by
    rcases List.mem_append.mp hd with hd | hd
    · exact h.decisions d hd
    · rw [List.mem_singleton.mp hd]
      exact ⟨item, (h.pending _ _ hpending).2, rfl, rfl⟩

/-- A scope waits while a request of it is pending. -/
theorem Standing.of_pending {key : String} (h : Standing s asked decided key)
    (hpending : s.queue.pending.lookup item.id = some item) (hkey : item.scopeKey = some key) :
    asked.filter (·.scopeKey = some key) = [item] ∧ (∀ d ∈ decided, d.scopeKey ≠ some key) ∧
      item.expiresAt ≠ some none ∧
      (∀ id x, s.queue.pending.lookup id = some x → x.scopeKey = some key → id = item.id) ∧
      Filed s key fun r => r.id = item.id ∧ r.status = .pending := by
  cases h with
  | fresh nobody undecided idle index filed => exact absurd hkey (idle.pending _ _ hpending)
  | settled x record once decision idle index own past filed =>
    exact absurd hkey (idle.pending _ _ hpending)
  | waiting x once undecided writable pending only inflight index filed =>
    have hid := only _ _ hpending hkey
    rw [hid, pending] at hpending
    obtain rfl := Option.some.inj hpending
    exact ⟨once, undecided, writable, only, filed⟩

theorem Invariant.settle (h : Invariant s asked decided)
    (hspec : SettleSpec item approved resolvedBy s.queue queue record)
    (hpending : s.queue.pending.lookup item.id = some item)
    (hattributed : Attributed item approved resolvedBy) :
    Invariant { s with queue := queue } asked
      (decided ++ [⟨item.id, item.scopeKey, approved⟩]) := by
  refine ⟨h.toKnown.settle hspec hpending, fun key => ?_⟩
  by_cases hkey : item.scopeKey = some key
  · obtain ⟨once, undecided, -, only, filed⟩ := (h.standing key).of_pending hpending hkey
    refine .settled item record once ?_ ⟨?_, ?_⟩ ?_ hspec.id hspec.past ⟨?_, ?_⟩
    · have hnone : decided.filter (·.scopeKey = some key) = [] :=
        List.filter_eq_nil_iff.mpr fun d hd => by simpa using undecided d hd
      have hanswer := hspec.answer hattributed (by simp [hkey])
      simp [List.filter_append, hnone, hkey, ← hanswer]
    · intro id x hx hxkey
      change queue.pending.lookup id = some x at hx
      rw [hspec.pending] at hx
      by_cases hid : id = item.id
      · rw [hid, AList.lookup_erase] at hx
        cases hx
      · rw [AList.lookup_erase_ne hid] at hx
        exact hid (only id x hx hxkey)
    · exact (hspec.inflight key).trans (if_pos hkey)
    · exact (hspec.index key).trans (if_pos hkey)
    · intro r hr hrkey
      change r ∈ queue.unwritten at hr
      rw [hspec.unwritten] at hr
      rcases List.mem_append.mp hr with hr | hr
      · obtain ⟨hid, hstatus⟩ := filed.unwritten r hr hrkey
        exact ⟨hid, .inl hstatus⟩
      · rw [List.mem_singleton.mp hr]
        exact ⟨hspec.id, .inr rfl⟩
    · intro id r hr hrkey
      obtain ⟨hid, hstatus⟩ := filed.store id r hr hrkey
      exact ⟨hid, .inl hstatus⟩
  · have hstanding : Standing { s with queue := queue } (asked ++ [])
        (decided ++ [⟨item.id, item.scopeKey, approved⟩]) key :=
      (h.standing key).frame (untouched_settle hspec hpending hkey) (by simp) (by simpa using hkey)
    rwa [List.append_nil] at hstanding

end Settle

/-! A put. -/

variable {decided : List Decision} {s : ApprovalSystem}

theorem Invariant.write {asked : List PendingApprovalRequest} (h : Invariant s asked decided)
    {record : ApprovalRecord} {rest : List ApprovalRecord}
    (hnext : s.queue.unwritten = record :: rest) (fails : Bool) :
    Invariant ⟨{ s.queue with unwritten := rest },
      if fails then s.store else s.store.insert record.id record⟩ asked decided := by
  have hrest : ∀ r ∈ rest, r ∈ s.queue.unwritten := fun r hr => hnext ▸ List.mem_cons_of_mem _ hr
  have hrecord : record ∈ s.queue.unwritten := hnext ▸ List.mem_cons_self
  have hlookup : ∀ id r, (if fails then s.store else s.store.insert record.id record).lookup id =
      some r → s.store.lookup id = some r ∨ id = record.id ∧ r = record := by
    intro id r hr
    split_ifs at hr
    · exact .inl hr
    · by_cases hid : id = record.id
      · rw [hid, AList.lookup_insert] at hr
        exact .inr ⟨hid, (Option.some.inj hr).symm⟩
      · rw [AList.lookup_insert_ne hid] at hr
        exact .inl hr
  refine ⟨⟨h.bound, h.pending, fun r hr => h.unwritten r (hrest r hr), ?_, h.decisions⟩, ?_⟩
  · intro id r hr
    rcases hlookup id r hr with hr | ⟨rfl, rfl⟩
    · exact h.store id r hr
    · exact ⟨rfl, h.unwritten _ hrecord⟩
  · intro key
    have huntouched : Untouched s ⟨{ s.queue with unwritten := rest },
        if fails then s.store else s.store.insert record.id record⟩ key := by
      refine ⟨fun _ _ _ => Iff.rfl, rfl, rfl, fun p hp => ⟨?_, ?_⟩⟩
      · intro r hr hrkey
        exact hp.unwritten r (hrest r hr) hrkey
      · intro id r hr hrkey
        rcases hlookup id r hr with hr | ⟨rfl, rfl⟩
        · exact hp.store id r hr hrkey
        · exact hp.unwritten _ hrecord hrkey
    have hstanding : Standing _ (asked ++ []) (decided ++ []) key :=
      (h.standing key).frame huntouched (by simp) (by simp)
    rwa [List.append_nil, List.append_nil] at hstanding

/-! A restart. -/

theorem filter_eq_singleton {α β : Type} {l : List α} {f : α → β} {p : α → Bool} {a : α}
    (hnodup : (l.map f).Nodup) (ha : a ∈ l) (hp : p a = true)
    (honly : ∀ b ∈ l, p b = true → f b = f a) : l.filter p = [a] := by
  obtain ⟨before, after, rfl⟩ := List.append_of_mem ha
  rw [List.map_append, List.map_cons, List.nodup_append, List.nodup_cons] at hnodup
  obtain ⟨-, ⟨hafter, -⟩, hbefore⟩ := hnodup
  have hnone : before.filter p = [] ∧ after.filter p = [] := by
    refine ⟨List.filter_eq_nil_iff.mpr fun b hb hpb => ?_,
      List.filter_eq_nil_iff.mpr fun b hb hpb => ?_⟩
    · exact hbefore _ (List.mem_map_of_mem hb) _ List.mem_cons_self
        (honly b (List.mem_append_left _ hb) hpb)
    · refine hafter (honly b ?_ hpb ▸ List.mem_map_of_mem hb)
      exact List.mem_append_right _ (List.mem_cons_of_mem _ hb)
  rw [List.filter_append, List.filter_cons_of_pos hp, hnone.1, hnone.2, List.nil_append]

variable {queue : ApprovalQueue}

section Restart

variable {host : ApprovalHost} {s : ApprovalSystem} {asked : List PendingApprovalRequest}
  {decided : List Decision} {loaded : List ApprovalRecord}

/-- The store's records are loaded, each once. -/
theorem Known.loads (h : Known s asked decided)
    (hsort : sortByCreated host.localeCompare (host.listed s.store) = .ok loaded) :
    (loaded.map ApprovalRecord.id).Nodup ∧
      ∀ r, r ∈ loaded ↔ ∃ x, s.store.lookup r.id = some x ∧ x.reload host.gives = r := by
  refine loaded_of_store (fun id r hr => ?_) (List.Perm.refl _) hsort
  obtain ⟨hid, item, hitem, heq, -⟩ := h.store id r hr
  exact ⟨hid, heq ▸ (h.bound item hitem).1⟩

/-- The index after loading has the one record of a scope. -/
theorem Loaded.index {limit : ℕ} {now : Timestamp} {key : String}
    (h : Loaded limit now loaded queue) (hspared : Spared limit (loaded.map (·.scopeKey)))
    (hr : r ∈ loaded) (hkey : r.scopeKey = some key)
    (honly : ∀ x ∈ loaded, x.scopeKey = some key → x = r) :
    queue.decidedScopes.lookup key = some (r.expire now) := by
  rw [h.indexed key, h.history, retained_map]
  have hkept : r ∈ retained limit loaded := by
    rw [← overflow_append_retained limit loaded] at hr
    refine (List.mem_append.mp hr).resolve_left fun hover => ?_
    have hnone := hspared r.scopeKey (overflow_map _ limit loaded ▸ List.mem_map_of_mem hover)
    rw [hkey] at hnone
    cases hnone
  cases hlast : lastOf key ((retained limit loaded).map (·.expire now)) with
  | none =>
    refine absurd ?_ (lastOf_none.mp hlast _ (List.mem_map_of_mem hkept))
    rw [expire_scopeKey, hkey]
  | some x =>
    obtain ⟨hx, hxkey⟩ := lastOf_some hlast
    obtain ⟨y, hy, rfl⟩ := List.mem_map.mp hx
    rw [expire_scopeKey] at hxkey
    rw [honly y (List.mem_of_mem_drop hy) hxkey]

theorem Loaded.index_none {limit : ℕ} {now : Timestamp} {key : String}
    (h : Loaded limit now loaded queue) (hnone : ∀ x ∈ loaded, x.scopeKey ≠ some key) :
    queue.decidedScopes.lookup key = none := by
  rw [h.indexed key, h.history, retained_map, lastOf_none]
  intro x hx
  obtain ⟨y, hy, rfl⟩ := List.mem_map.mp hx
  rw [expire_scopeKey]
  exact hnone y (List.mem_of_mem_drop hy)

theorem mem_expiries {entries : List ApprovalRecord} {d : Decision} :
    d ∈ ApprovalHost.expiries entries ↔
      ∃ r ∈ entries, r.id ≠ "" ∧ r.status = .pending ∧ d = ⟨r.id, r.scopeKey, false⟩ := by
  simp only [ApprovalHost.expiries, List.mem_map, List.mem_filter, decide_eq_true_eq, and_assoc,
    @eq_comm _ d]

/-- The one pending record of a scope is expired. -/
theorem expiries_filter {entries : List ApprovalRecord} {key : String}
    (hids : (entries.map ApprovalRecord.id).Nodup) (hr : r ∈ entries) (hid : r.id ≠ "")
    (hkey : r.scopeKey = some key) (hpending : r.status = .pending)
    (honly : ∀ x ∈ entries, x.scopeKey = some key → x.id = r.id) :
    (ApprovalHost.expiries entries).filter (·.scopeKey = some key) = [⟨r.id, some key, false⟩] := by
  have hone : entries.filter (fun x => (decide (x.scopeKey = some key)) &&
      decide (x.id ≠ "" ∧ x.status = .pending)) = [r] := by
    refine filter_eq_singleton hids hr (by simp [hid, hkey, hpending]) ?_
    intro x hx hp
    simp only [Bool.and_eq_true, decide_eq_true_eq] at hp
    exact honly x hx hp.1
  rw [ApprovalHost.expiries, List.filter_map, List.filter_filter]
  simp only [Function.comp_def]
  rw [hone, List.map_singleton, hkey]

theorem Known.restart {now : Timestamp} {putFails : String → Bool} {store : ApprovalStore}
    (h : Known s asked decided)
    (hloaded : ∀ r, r ∈ loaded ↔ ∃ x, s.store.lookup r.id = some x ∧ x.reload host.gives = r)
    (hqueue : Loaded host.options.limit now loaded queue)
    (hstore : ∀ id, store.lookup id = durable now putFails s.store loaded id) :
    Known ⟨queue, store⟩ asked (decided ++ expiries (host.listed s.store)) where
  bound := h.bound
  pending id x hx := by
    change queue.pending.lookup id = some x at hx
    rw [hqueue.pending] at hx
    cases hx
  unwritten r hr := by
    change r ∈ queue.unwritten at hr
    rw [hqueue.unwritten] at hr
    cases hr
  store id r hr := by
    change store.lookup id = some r at hr
    rw [hstore] at hr
    rcases durable_cases hr with hr | ⟨x, hx, rfl, -, rfl⟩
    · exact h.store id r hr
    · obtain ⟨y, hy, rfl⟩ := (hloaded x).mp hx
      rw [expire_id, expire_scopeKey]
      exact ⟨rfl, (h.store _ y hy).2⟩
  decisions d hd := by
    rcases List.mem_append.mp hd with hd | hd
    · exact h.decisions d hd
    · obtain ⟨r, hr, -, -, rfl⟩ := mem_expiries.mp hd
      obtain ⟨id, x, hx, rfl⟩ := mem_listed.mp hr
      exact (h.store id x hx).2

theorem Invariant.restart {now : Timestamp} {putFails : String → Bool} {store : ApprovalStore}
    (h : Invariant s asked decided) (hrest : Restorable host s)
    (hsort : sortByCreated host.localeCompare (host.listed s.store) = .ok loaded)
    (hqueue : Loaded host.options.limit now loaded queue)
    (hstore : ∀ id, store.lookup id = durable now putFails s.store loaded id) :
    Invariant ⟨queue, store⟩ asked (decided ++ expiries (host.listed s.store)) := by
  obtain ⟨hids, hloaded⟩ := h.toKnown.loads hsort
  obtain ⟨hwaiting, hdecided, hspared⟩ := hrest
  rw [hsort] at hspared
  refine ⟨h.toKnown.restart hloaded hqueue hstore, fun key => ?_⟩
  have hidle : Idle queue key := by
    refine ⟨fun id x hx => ?_, ?_⟩
    · rw [hqueue.pending] at hx
      cases hx
    · rw [hqueue.pendingByScope]
      rfl
  -- of the key's records in the store, what becomes of them
  have hfiled : ∀ {p p' : ApprovalRecord → Prop}, Filed s key p →
      (∀ r, p r → p' r) →
      (∀ r, s.store.lookup r.id = some r → p r → p' ((r.reload host.gives).expire now)) →
      Filed ⟨queue, store⟩ key p' := by
    intro p p' hp hkeep hexpire
    refine ⟨fun r hr => ?_, fun id r hr hrkey => ?_⟩
    · change r ∈ queue.unwritten at hr
      rw [hqueue.unwritten] at hr
      cases hr
    · change store.lookup id = some r at hr
      rw [hstore] at hr
      rcases durable_cases hr with hr | ⟨x, hx, rfl, -, rfl⟩
      · exact hkeep r (hp.store id r hr hrkey)
      · obtain ⟨y, hy, rfl⟩ := (hloaded x).mp hx
        rw [expire_scopeKey] at hrkey
        exact hexpire y hy (hp.store _ y hy hrkey)
  have hlisted : ∀ {p : ApprovalRecord → Prop}, Filed s key p → ∀ x ∈ host.listed s.store,
      x.scopeKey = some key → ∃ y, s.store.lookup y.id = some y ∧ y.reload host.gives = x ∧ p y := by
    intro p hp x hx hxkey
    obtain ⟨id, y, hy, rfl⟩ := mem_listed.mp hx
    exact ⟨y, (h.store id y hy).1 ▸ hy, rfl, hp.store id y hy hxkey⟩
  have hmem : ∀ x ∈ loaded, x ∈ host.listed s.store := by
    intro x hx
    obtain ⟨y, hy, heq⟩ := (hloaded x).mp hx
    exact mem_listed.mpr ⟨_, y, hy, heq⟩
  cases h.standing key with
  | fresh nobody undecided idle index filed =>
    refine .fresh nobody ?_ hidle (hqueue.index_none fun x hx hxkey => ?_)
      (hfiled filed (fun _ => id) (fun _ _ => id))
    · intro d hd
      rcases List.mem_append.mp hd with hd | hd
      · exact undecided d hd
      · obtain ⟨r, hr, -, -, rfl⟩ := mem_expiries.mp hd
        intro hrkey
        obtain ⟨-, -, -, hfalse⟩ := hlisted filed r hr hrkey
        exact hfalse
    · obtain ⟨-, -, -, hfalse⟩ := hlisted filed x (hmem x hx) hxkey
      exact hfalse
  | waiting item once undecided writable pending only inflight index filed =>
    have hitem : item ∈ asked ∧ item.scopeKey = some key := by
      have hmem : item ∈ asked.filter (·.scopeKey = some key) := by simp [once]
      simpa using hmem
    have hthere := hwaiting ⟨item.id, item⟩ (AList.mem_lookup_iff.mp pending) (by simp [hitem.2])
    obtain ⟨r, hr, hrkey⟩ := (Option.any_eq_true _ _).mp hthere
    have hrkey : r.scopeKey = some key := (of_decide_eq_true hrkey).trans hitem.2
    obtain ⟨hrid, hrstatus⟩ := filed.store _ r hr hrkey
    have hrnonempty : r.id ≠ "" := hrid ▸ (h.bound item hitem.1).1
    have hsame : ∀ x ∈ host.listed s.store, x.scopeKey = some key → x = r.reload host.gives := by
      intro x hx hxkey
      obtain ⟨y, hy, rfl, hyid, -⟩ := hlisted filed x hx hxkey
      rw [hyid, hr] at hy
      rw [Option.some.inj hy]
    have hrload : r.reload host.gives ∈ loaded := (hloaded _).mpr ⟨r, hrid ▸ hr, rfl⟩
    have hexpired : ((r.reload host.gives).expire now).status = .expired := by
      rw [expire_status, reload_status, if_pos hrstatus]
    refine .settled item ((r.reload host.gives).expire now) once ?_ hidle
      (hqueue.index hspared hrload hrkey fun x hx hxkey => hsame x (hmem x hx) hxkey) ?_
      (expire_settled now _) (hfiled filed (fun x hx => ⟨hx.1, .inl hx.2⟩) ?_)
    · have hnone : decided.filter (·.scopeKey = some key) = [] :=
        List.filter_eq_nil_iff.mpr fun d hd => by simpa using undecided d hd
      rw [List.filter_append, hnone, List.nil_append, expiries_filter (listed_nodup fun id r hr => (h.store id r hr).1)
        (hmem _ hrload) hrnonempty hrkey hrstatus fun x hx hxkey => by rw [hsame x hx hxkey],
        hexpired, reload_id, hrid]
      rfl
    · rw [expire_id, reload_id, hrid]
    · intro x _ hx
      rw [expire_id, reload_id, hexpired, expire_status, reload_status, if_pos hx.2]
      exact ⟨hx.1, .inr rfl⟩
  | settled item record once decision idle index own past filed =>
    have hthere := hdecided ⟨key, record⟩ (AList.mem_lookup_iff.mp index)
    obtain ⟨r, hr, hrkey⟩ := (Option.any_eq_true _ _).mp hthere
    obtain ⟨hrkey, hrstatus⟩ := of_decide_eq_true hrkey
    obtain ⟨hrid, -⟩ := filed.store _ r hr hrkey
    have hsame : ∀ x ∈ host.listed s.store, x.scopeKey = some key → x = r.reload host.gives := by
      intro x hx hxkey
      obtain ⟨y, hy, rfl, hyid, -⟩ := hlisted filed x hx hxkey
      rw [hyid, ← own, hr] at hy
      rw [Option.some.inj hy]
    have hrload : r.reload host.gives ∈ loaded :=
      (hloaded _).mpr ⟨r, by rwa [reload_id, hrid, ← own], rfl⟩
    have hkept : (r.reload host.gives).expire now = r.reload host.gives := by
      rw [ApprovalRecord.expire, if_neg]
      rw [reload_status, hrstatus]
      exact past
    refine .settled item (r.reload host.gives) once ?_ hidle ?_ hrid ?_ ?_
    · rw [filter_append_other, decision, reload_status, hrstatus]
      intro d hd
      obtain ⟨x, hx, -, hxpending, rfl⟩ := mem_expiries.mp hd
      refine decide_eq_false fun hxkey => ?_
      rw [hsame x hx hxkey, reload_status, hrstatus] at hxpending
      exact past hxpending
    · rw [hqueue.index hspared hrload hrkey fun x hx hxkey => hsame x (hmem x hx) hxkey, hkept]
    · rw [reload_status, hrstatus]
      exact past
    · refine hfiled filed ?_ ?_
      · intro x hx
        rw [reload_status, hrstatus]
        exact hx
      · intro x hxs hx
        rw [hx.1, ← own, hr] at hxs
        obtain rfl := Option.some.inj hxs
        rw [hkept]
        exact ⟨hx.1, .inr rfl⟩

end Restart

/-! Steps and runs. -/

variable {options : ApprovalQueueOptions}

section Step

variable {host : ApprovalHost} {s : ApprovalSystem} {asked : List PendingApprovalRequest}
  {decided : List Decision}

/-- A request whose record cannot be made is unscoped: it just leaves the queue. -/
theorem Invariant.unwritable (h : Invariant s asked decided) (hkey : item.scopeKey = none)
    (hpending : s.queue.pending.lookup item.id = some item) :
    Invariant { s with queue := { s.queue with pending := s.queue.pending.erase item.id } } asked
      decided := by
  have hlookup : ∀ {id x}, (s.queue.pending.erase item.id).lookup id = some x →
      s.queue.pending.lookup id = some x ∧ id ≠ item.id := by
    intro id x hx
    by_cases hid : id = item.id
    · rw [hid, AList.lookup_erase] at hx
      cases hx
    · rw [AList.lookup_erase_ne hid] at hx
      exact ⟨hx, hid⟩
  refine ⟨⟨h.bound, fun id x hx => h.pending id x (hlookup hx).1, h.unwritten, h.store,
    h.decisions⟩, fun key => ?_⟩
  have huntouched : Untouched s
      { s with queue := { s.queue with pending := s.queue.pending.erase item.id } } key := by
    refine ⟨fun id x hx => ⟨fun hlook => (hlookup hlook).1, fun hlook => ?_⟩, rfl, rfl,
      fun p hp => ⟨hp.unwritten, hp.store⟩⟩
    have hid : id ≠ item.id := by
      rintro rfl
      rw [hpending] at hlook
      obtain rfl := Option.some.inj hlook
      rw [hkey] at hx
      cases hx
    exact (AList.lookup_erase_ne hid).trans hlook
  have hstanding : Standing _ (asked ++ []) (decided ++ []) key :=
    (h.standing key).frame huntouched (by simp) (by simp)
  rwa [List.append_nil, List.append_nil] at hstanding

/-- A pending request is settled. -/
theorem Invariant.settling (h : Invariant s asked decided) {id : String} {now : Timestamp}
    {limit : ℕ} (hpending : s.queue.pending.lookup id = some item) (hroom : Room limit item s.queue)
    (hattributed : Attributed item approved resolvedBy) (answer : ApprovalAnswer) :
    Invariant { s with queue := (s.queue.settle limit item approved resolvedBy now).2 } asked
      (decided ++ (ApprovalQueue.settledEffect item approved answer
        (s.queue.settle limit item approved resolvedBy now).1).decided) := by
  obtain ⟨rfl, -⟩ := h.pending _ _ hpending
  by_cases hexpires : item.expiresAt = some none
  · have hkey : item.scopeKey = none := by
      cases hscope : item.scopeKey with
      | none => rfl
      | some key =>
        obtain ⟨-, -, hwritable, -⟩ := (h.standing key).of_pending hpending hscope
        exact absurd hexpires hwritable
    have hout : s.queue.settle limit item approved resolvedBy now =
        (.error "Invalid time value",
          { s.queue with pending := s.queue.pending.erase item.id }) := by
      simp only [ApprovalQueue.settle, toRecord, hexpires, optionalIso, hkey]
      rfl
    rw [hout]
    change Invariant _ asked (decided ++ [])
    rw [List.append_nil]
    exact h.unwritable hkey hpending
  · obtain ⟨record, hrecord, hspec⟩ : ∃ record,
        (s.queue.settle limit item approved resolvedBy now).1 = .ok record ∧
        SettleSpec item approved resolvedBy s.queue
          (s.queue.settle limit item approved resolvedBy now).2 record :=
      settle_spec hexpires hroom
    rw [hrecord]
    exact h.settle hspec hpending hattributed

theorem settledEffect_asked (item : PendingApprovalRequest) (approved : Bool)
    (answer : ApprovalAnswer) (record : Except String ApprovalRecord) :
    (ApprovalQueue.settledEffect item approved answer record).asked = [] := by
  cases record <;> rfl

theorem bound_item {scope : ApprovalScope} {details : ScopedDetails} {uuid : String}
    {now : Timestamp} (hvalid : validateScope scope = .ok ()) :
    let item := ApprovalQueue.scopedItem options scope details uuid now
    item.id ≠ "" ∧ item.scopeKey = item.scope.map approvalScopeKey ∧
      ∀ scope, item.scope = some scope → validateScope scope = .ok () := by
  refine ⟨by simp [ApprovalQueue.scopedItem, ApprovalQueue.newItem], rfl, ?_⟩
  rintro _ ⟨⟩
  exact hvalid

/-- What `requestScoped` can do. -/
theorem requestScoped_cases (options : ApprovalQueueOptions) (scope : ApprovalScope)
    (details : ScopedDetails) (uuid : String) (now : Timestamp) (autoDeny : Bool)
    (q : ApprovalQueue) :
    let out := q.requestScoped options scope details uuid now autoDeny
    let key := approvalScopeKey scope
    let item := ApprovalQueue.scopedItem options scope details uuid now
    (∃ e, out = (⟨[], [], .threw e⟩, q)) ∨
    validateScope scope = .ok () ∧
      ((∃ id, q.pendingByScope.lookup key = some id ∧ out = (⟨[], [], .promised id⟩, q)) ∨
      (∃ record, q.pendingByScope.lookup key = none ∧ q.decidedScopes.lookup key = some record ∧
        out = (⟨[], [], .settled (record.status = .approved)⟩, q)) ∨
      (autoDeny = true ∧ out = (⟨[], [], .settled false⟩, q)) ∨
      (q.pendingByScope.lookup key = none ∧ q.decidedScopes.lookup key = none ∧
        out = ((q.createPending item).1, { (q.createPending item).2 with
          pendingByScope := (q.createPending item).2.pendingByScope.insert key item.id }))) := by
  simp only [ApprovalQueue.requestScoped]
  cases hvalid : validateScope scope with
  | error e => exact .inl ⟨e, rfl⟩
  | ok _ =>
    refine .inr ⟨rfl, ?_⟩
    cases hinflight : q.pendingByScope.lookup (approvalScopeKey scope) with
    | some id => exact .inl ⟨id, rfl, rfl⟩
    | none =>
      cases hindex : q.decidedScopes.lookup (approvalScopeKey scope) with
      | some record => exact .inr (.inl ⟨record, rfl, rfl, rfl⟩)
      | none =>
        cases autoDeny with
        | true => exact .inr (.inr (.inl ⟨rfl, rfl⟩))
        | false => exact .inr (.inr (.inr ⟨rfl, rfl, rfl⟩))

theorem Invariant.quiet (h : Invariant s asked decided) :
    Invariant s (asked ++ []) (decided ++ []) := by
  rwa [List.append_nil, List.append_nil]

theorem Invariant.requestScoped (h : Invariant s asked decided) {scope : ApprovalScope}
    {details : ScopedDetails} {uuid : String} {now : Timestamp} {autoDeny : Bool}
    (hexpires : (ApprovalQueue.scopedItem options scope details uuid now).expiresAt ≠ some none)
    (hids : ((asked ++ (s.queue.requestScoped options scope details uuid now autoDeny).1.asked).map
      PendingApprovalRequest.id).Nodup) :
    Invariant { s with queue := (s.queue.requestScoped options scope details uuid now autoDeny).2 }
      (asked ++ (s.queue.requestScoped options scope details uuid now autoDeny).1.asked)
      (decided ++ (s.queue.requestScoped options scope details uuid now autoDeny).1.decided) := by
  rcases requestScoped_cases options scope details uuid now autoDeny s.queue with
    ⟨e, hout⟩ | ⟨hvalid, ⟨id, -, hout⟩ | ⟨record, -, -, hout⟩ | ⟨-, hout⟩ |
      ⟨hinflight, hindex, hout⟩⟩
  · rw [hout]
    exact h.quiet
  · rw [hout]
    exact h.quiet
  · rw [hout]
    exact h.quiet
  · rw [hout]
    exact h.quiet
  · rw [hout] at hids ⊢
    obtain ⟨records, hqueue, hrecords, hasked, hdecided, -⟩ :=
      createPending_spec (ApprovalQueue.scopedItem options scope details uuid now) s.queue
    simp only [hasked, hdecided, hqueue, List.append_nil] at hids ⊢
    exact h.askScoped hids (bound_item hvalid) hrecords hexpires rfl hinflight hindex

theorem Invariant.enqueue (h : Invariant s asked decided) {request : PolicyActionRequest}
    {decision : PolicyDecision} {jobId taskId agentId : Option String} {ttlMs : Option JsNumber}
    {uuid : String} {now : Timestamp} {env : ApprovalQueue.Surroundings}
    (hids : ((asked ++ (s.queue.enqueue options request decision jobId taskId agentId ttlMs uuid now
      env).1.asked).map PendingApprovalRequest.id).Nodup) :
    Invariant { s with queue := (s.queue.enqueue options request decision jobId taskId agentId ttlMs
        uuid now env).2 }
      (asked ++ (s.queue.enqueue options request decision jobId taskId agentId ttlMs uuid now
        env).1.asked)
      (decided ++ (s.queue.enqueue options request decision jobId taskId agentId ttlMs uuid now
        env).1.decided) := by
  unfold ApprovalQueue.enqueue at hids ⊢
  split_ifs at hids ⊢
  · exact h.quiet
  · exact h.quiet
  · exact h.quiet
  · obtain ⟨records, hqueue, hrecords, hasked, hdecided, -⟩ := createPending_spec
      (ApprovalQueue.newItem request decision
        ⟨jobId, taskId, agentId, ttlMs.or options.defaultTimeoutMs, none, none⟩ uuid now) s.queue
    simp only [hasked, hdecided, hqueue, List.append_nil] at hids ⊢
    refine h.ask hids ⟨by simp [ApprovalQueue.newItem], rfl, ?_⟩ hrecords rfl
    rintro _ ⟨⟩

theorem Invariant.step (h : Invariant s asked decided) {event : ApprovalEvent}
    (hcond : Condition host event s)
    (hids : ((asked ++ (host.step event s).1.asked).map PendingApprovalRequest.id).Nodup) :
    Invariant (host.step event s).2 (asked ++ (host.step event s).1.asked)
      (decided ++ (host.step event s).1.decided) := by
  cases event with
  | requestScoped scope details uuid now autoDeny => exact h.requestScoped hcond hids
  | enqueue request decision jobId taskId agentId ttlMs uuid now env => exact h.enqueue hids
  | resolve id approved resolvedBy expected now =>
    simp only [Condition] at hcond
    simp only [ApprovalHost.step, ApprovalQueue.resolve]
    cases hpending : s.queue.pending.lookup id with
    | none => exact h.quiet
    | some item =>
      rw [hpending] at hcond
      simp only at hcond ⊢
      split_ifs at hcond ⊢
      · rw [settledEffect_asked, List.append_nil]
        exact h.settling hpending hcond (fun _ hfalse => Bool.noConfusion hfalse) _
      · cases toRecord item .pending none none <;> exact h.quiet
      · rw [settledEffect_asked, List.append_nil]
        exact h.settling hpending hcond.1 hcond.2 _
  | settle id approved resolvedBy now =>
    simp only [Condition] at hcond
    simp only [ApprovalHost.step]
    cases hpending : s.queue.pending.lookup id with
    | none => exact h.quiet
    | some item =>
      rw [hpending] at hcond
      simp only [settledEffect_asked, List.append_nil]
      exact h.settling hpending hcond.1 hcond.2 _
  | write fails =>
    simp only [ApprovalHost.step]
    cases hnext : s.queue.unwritten with
    | nil => exact h.quiet
    | cons record rest => exact (h.write hnext fails).quiet
  | restart now listFails putFails =>
    obtain ⟨rfl, hrest⟩ := hcond
    have hloads := hrest.2.2
    simp only [ApprovalHost.step, ApprovalHost.restart, ApprovalQueue.init]
    cases hsort : sortByCreated host.localeCompare (host.listed s.store) with
    | error e =>
      rw [hsort] at hloads
      exact hloads.elim
    | ok loaded =>
      have hnodup := (h.toKnown.loads hsort).1
      change Invariant _ (asked ++ []) _
      rw [List.append_nil]
      exact h.restart hrest hsort (loaded_of_foldl hnodup) (store_of_foldl hnodup)

end Step

section Run

variable {host : ApprovalHost}

theorem run_concat (events : List ApprovalEvent) (event : ApprovalEvent) :
    host.run (events ++ [event]) = host.next (host.run events) event :=
  List.foldl_concat ..

theorem askedIn_append (moments more : List Moment) :
    askedIn (moments ++ more) = askedIn moments ++ askedIn more :=
  List.flatMap_append

theorem decidedIn_append (moments more : List Moment) :
    decidedIn (moments ++ more) = decidedIn moments ++ decidedIn more :=
  List.flatMap_append

theorem askedIn_singleton (m : Moment) : askedIn [m] = m.effect.asked := by
  simp [askedIn]

theorem decidedIn_singleton (m : Moment) : decidedIn [m] = m.effect.decided := by
  simp [decidedIn]

/-- What a run holds after any of its prefixes is what the run of some events holds. -/
theorem run_split {events : List ApprovalEvent} {before : List Moment} {m : Moment}
    {after : List Moment} (h : (host.run events).1 = before ++ m :: after) :
    (∃ earlier, host.run earlier = (before, m.before)) ∧
      m.effect = (host.step m.event m.before).1 := by
  induction events using List.reverseRecOn generalizing after with
  | nil => exact absurd h (by simp [ApprovalHost.run])
  | append_singleton events event ih =>
    rw [run_concat] at h
    rcases List.eq_nil_or_concat after with rfl | ⟨rest, last, rfl⟩
    · obtain ⟨hbefore, hm⟩ := List.append_inj' h rfl
      obtain rfl := (List.cons.inj hm).1
      exact ⟨⟨events, Prod.ext hbefore rfl⟩, rfl⟩
    · rw [List.concat_eq_append, ← List.cons_append, ← List.append_assoc] at h
      exact ih (List.append_inj' h rfl).1

theorem invariant_run {events : List ApprovalEvent}
    (hids : ((askedIn (host.run events).1).map PendingApprovalRequest.id).Nodup)
    (hcond : ∀ m ∈ (host.run events).1, Condition host m.event m.before) :
    Invariant (host.run events).2 (askedIn (host.run events).1)
      (decidedIn (host.run events).1) := by
  induction events using List.reverseRecOn with
  | nil =>
    have hlookup : ∀ {α : Type} {id : String} {x : α}, (∅ : Table String α).lookup id ≠ some x := by
      rintro α id x ⟨⟩
    refine ⟨⟨by simp [ApprovalHost.run, askedIn], fun id x hx => (hlookup hx).elim, ?_,
      fun id r hr => (hlookup hr).elim, by simp [ApprovalHost.run, decidedIn]⟩, fun key => ?_⟩
    · rintro r ⟨⟩
    · refine .fresh (by simp [ApprovalHost.run, askedIn]) (by simp [ApprovalHost.run, decidedIn])
        ⟨fun id x hx => (hlookup hx).elim, rfl⟩ rfl ⟨?_, fun id r hr => (hlookup hr).elim⟩
      rintro r ⟨⟩
  | append_singleton events event ih =>
    rw [run_concat] at hids hcond ⊢
    simp only [ApprovalHost.next, askedIn_append, askedIn_singleton] at hids hcond ⊢
    rw [decidedIn_append, decidedIn_singleton]
    have hids' := hids
    rw [List.map_append] at hids'
    refine (ih hids'.of_append_left fun m hm => hcond m (List.mem_append_left _ hm)).step ?_ hids
    exact hcond _ (List.mem_append_right _ (List.mem_singleton.mpr rfl))

/-- The item of a scope, and the decisions on it. -/
theorem Invariant.of_scope {asked : List PendingApprovalRequest} (h : Invariant s asked decided)
    (hitem : item ∈ asked) {scope : ApprovalScope} (hscope : item.scope = some scope) :
    item.scopeKey = some (approvalScopeKey scope) ∧ validateScope scope = .ok () ∧
      asked.filter (·.scopeKey = some (approvalScopeKey scope)) = [item] := by
  obtain ⟨-, hkey, hvalid⟩ := h.bound item hitem
  rw [hscope, Option.map_some] at hkey
  refine ⟨hkey, hvalid scope hscope, ?_⟩
  have hmem : item ∈ asked.filter (·.scopeKey = some (approvalScopeKey scope)) := by
    simp [hitem, hkey]
  cases h.standing (approvalScopeKey scope) with
  | fresh nobody undecided idle index filed => exact absurd hkey (nobody item hitem)
  | waiting x once undecided writable pending only inflight index filed =>
    rw [once] at hmem ⊢
    rw [List.mem_singleton.mp hmem]
  | settled x record once decision idle index own past filed =>
    rw [once] at hmem ⊢
    rw [List.mem_singleton.mp hmem]

/-- A key in `asked` is that of the scope. -/
theorem Invariant.scope_of_key {asked : List PendingApprovalRequest} (h : Invariant s asked decided)
    {scope : ApprovalScope} (hvalid : validateScope scope = .ok ())
    (honce : asked.filter (·.scopeKey = some (approvalScopeKey scope)) = [item]) :
    item ∈ asked ∧ item.scope = some scope := by
  have hmem : item ∈ asked.filter (·.scopeKey = some (approvalScopeKey scope)) := by simp [honce]
  obtain ⟨hitem, hkey⟩ := List.mem_filter.mp hmem
  obtain ⟨-, hown, hvalid'⟩ := h.bound item hitem
  rw [of_decide_eq_true hkey] at hown
  obtain ⟨scope', hscope', heq⟩ := Option.map_eq_some_iff.mp hown.symm
  rw [approvalScopeKey_inj (hvalid' scope' hscope') hvalid heq] at hscope'
  exact ⟨hitem, hscope'⟩

theorem nodup_scopes {asked : List PendingApprovalRequest} (h : Invariant s asked decided)
    (hids : (asked.map PendingApprovalRequest.id).Nodup) : (asked.filterMap (·.scope)).Nodup := by
  rw [List.nodup_iff_pairwise_ne, List.pairwise_filterMap]
  refine (List.pairwise_map.mp hids).imp_of_mem ?_
  intro a b ha hb hne scope hscope scope' hscope' heq
  subst heq
  obtain ⟨-, -, honce⟩ := h.of_scope ha hscope
  obtain ⟨-, -, honce'⟩ := h.of_scope hb hscope'
  rw [honce] at honce'
  exact hne (congrArg PendingApprovalRequest.id (List.singleton_inj.mp honce'))

/-- The decisions on an item of a scope are those of its key. -/
theorem Invariant.decisions_of {asked : List PendingApprovalRequest} (h : Invariant s asked decided)
    (hids : (asked.map PendingApprovalRequest.id).Nodup) (hitem : item ∈ asked) {d : Decision}
    (hd : d ∈ decided) (hid : d.id = item.id) :
    d.scopeKey = item.scopeKey := by
  obtain ⟨x, hx, hxid, hxkey⟩ := h.decisions d hd
  rw [List.inj_on_of_nodup_map hids hx hitem (hxid.trans hid)] at hxkey
  exact hxkey.symm

/-! What one request or resolution gets, given the invariant before it. -/

section Answers

variable {s : ApprovalSystem} {asked : List PendingApprovalRequest} {decided : List Decision}
  {options : ApprovalQueueOptions} {scope : ApprovalScope} {details : ScopedDetails} {uuid : String}
  {now : Timestamp} {autoDeny : Bool}

theorem Invariant.decidedOnce (h : Invariant s asked decided)
    (hids : (asked.map PendingApprovalRequest.id).Nodup) (hitem : item ∈ asked)
    (hscope : item.scope = some scope) :
    (decided.filter (·.id = item.id)).length ≤ 1 := by
  obtain ⟨hkey, -, -⟩ := h.of_scope hitem hscope
  have hfilter : decided.filter (·.id = item.id) =
      (decided.filter (·.scopeKey = some (approvalScopeKey scope))).filter (·.id = item.id) := by
    rw [List.filter_filter]
    refine List.filter_congr fun d hd => ?_
    by_cases hid : d.id = item.id
    · simp [hid, (h.decisions_of hids hitem hd hid).trans hkey]
    · simp [hid]
  rw [hfilter]
  refine (List.length_filter_le _ _).trans ?_
  cases h.standing (approvalScopeKey scope) with
  | fresh nobody undecided idle index filed => exact absurd hkey (nobody item hitem)
  | waiting x once undecided writable pending only inflight index filed =>
    have hnone : decided.filter (·.scopeKey = some (approvalScopeKey scope)) = [] :=
      List.filter_eq_nil_iff.mpr fun d hd => by simpa using undecided d hd
    simp [hnone]
  | settled x record once decision idle index own past filed => simp [decision]

theorem Invariant.sameAnswer (h : Invariant s asked decided)
    (hids : (asked.map PendingApprovalRequest.id).Nodup) (hitem : item ∈ asked)
    (hscope : item.scope = some scope) {d : Decision} (hd : d ∈ decided) (hid : d.id = item.id) :
    (s.queue.requestScoped options scope details uuid now autoDeny).1 =
      ⟨[], [], .settled d.approved⟩ := by
  obtain ⟨hkey, hvalid, -⟩ := h.of_scope hitem hscope
  have hdkey := (h.decisions_of hids hitem hd hid).trans hkey
  cases h.standing (approvalScopeKey scope) with
  | fresh nobody undecided idle index filed => exact absurd hkey (nobody item hitem)
  | waiting x once undecided writable pending only inflight index filed =>
    exact absurd hdkey (undecided d hd)
  | settled x record once decision idle index own past filed =>
    have hmem : d ∈ decided.filter (·.scopeKey = some (approvalScopeKey scope)) := by
      simp [hd, hdkey]
    rw [decision] at hmem
    obtain rfl := List.mem_singleton.mp hmem
    simp only [ApprovalQueue.requestScoped, hvalid, idle.inflight, index]

theorem Invariant.ownPromise (h : Invariant s asked decided)
    (hexpires : (ApprovalQueue.scopedItem options scope details uuid now).expiresAt ≠ some none)
    {id : String} (hanswer :
      (s.queue.requestScoped options scope details uuid now autoDeny).1.answer = .promised id) :
    ∃ item ∈ asked ++ (s.queue.requestScoped options scope details uuid now autoDeny).1.asked,
      item.id = id ∧ item.scope = some scope := by
  rcases requestScoped_cases options scope details uuid now autoDeny s.queue with
    ⟨e, hout⟩ | ⟨hvalid, ⟨id', hinflight, hout⟩ | ⟨record, -, -, hout⟩ | ⟨-, hout⟩ |
      ⟨hinflight, hindex, hout⟩⟩
  · rw [hout] at hanswer
    cases hanswer
  · rw [hout] at hanswer ⊢
    cases hanswer
    cases h.standing (approvalScopeKey scope) with
    | fresh nobody undecided idle index filed =>
      rw [idle.inflight] at hinflight
      cases hinflight
    | settled x record once decision idle index own past filed =>
      rw [idle.inflight] at hinflight
      cases hinflight
    | waiting x once undecided writable pending only inflight index filed =>
      obtain ⟨hx, hscope⟩ := h.scope_of_key hvalid once
      rw [inflight] at hinflight
      exact ⟨x, List.mem_append_left _ hx, Option.some.inj hinflight, hscope⟩
  · rw [hout] at hanswer
    cases hanswer
  · rw [hout] at hanswer
    cases hanswer
  · obtain ⟨records, -, -, hasked, -, hpromised⟩ := createPending_spec
      (ApprovalQueue.scopedItem options scope details uuid now) s.queue
    rw [hout] at hanswer ⊢
    have hid := (hpromised hexpires).symm.trans hanswer
    refine ⟨_, List.mem_append_right _ ?_, by simpa using hid, rfl⟩
    rw [hasked]
    exact List.mem_singleton.mpr rfl

theorem Invariant.ownAnswer (h : Invariant s asked decided)
    (hexpires : (ApprovalQueue.scopedItem options scope details uuid now).expiresAt ≠ some none)
    {answer : Bool} (hanswer :
      (s.queue.requestScoped options scope details uuid now autoDeny).1.answer = .settled answer) :
    autoDeny = true ∧ answer = false ∨
      ∃ item ∈ asked, item.scope = some scope ∧
        ∃ d ∈ decided, d.id = item.id ∧ d.approved = answer := by
  rcases requestScoped_cases options scope details uuid now autoDeny s.queue with
    ⟨e, hout⟩ | ⟨hvalid, ⟨id', hinflight, hout⟩ | ⟨record, -, hindex, hout⟩ | ⟨hdeny, hout⟩ |
      ⟨hinflight, hindex, hout⟩⟩
  · rw [hout] at hanswer
    cases hanswer
  · rw [hout] at hanswer
    cases hanswer
  · rw [hout] at hanswer
    cases hanswer
    cases h.standing (approvalScopeKey scope) with
    | fresh nobody undecided idle index filed =>
      rw [index] at hindex
      cases hindex
    | waiting x once undecided writable pending only inflight index filed =>
      rw [index] at hindex
      cases hindex
    | settled x record' once decision idle index own past filed =>
      rw [index] at hindex
      obtain rfl := Option.some.inj hindex
      obtain ⟨hx, hscope⟩ := h.scope_of_key hvalid once
      have hmem : (⟨x.id, some (approvalScopeKey scope), record'.status = .approved⟩ : Decision) ∈
          decided.filter (·.scopeKey = some (approvalScopeKey scope)) := by
        simp [decision]
      exact .inr ⟨x, hx, hscope, _, (List.mem_filter.mp hmem).1, rfl, rfl⟩
  · rw [hout] at hanswer
    cases hanswer
    exact .inl ⟨hdeny, rfl⟩
  · obtain ⟨records, -, -, -, -, hpromised⟩ := createPending_spec
      (ApprovalQueue.scopedItem options scope details uuid now) s.queue
    rw [hout] at hanswer
    cases (hpromised hexpires).symm.trans hanswer

theorem settledEffect_ok {answer : ApprovalAnswer} {made : Except String ApprovalRecord}
    {record : ApprovalRecord} (h : (ApprovalQueue.settledEffect item approved answer made).answer =
      .resolution (.ok record)) : answer = .resolution (.ok record) := by
  cases made with
  | error e => cases h
  | ok made => exact h

theorem Invariant.ownResolution (h : Invariant s asked decided) {limit : ℕ} {id : String}
    {expected : PartialScope} {record : ApprovalRecord}
    (hanswer : (s.queue.resolve limit id approved resolvedBy (some expected) now).1.answer =
      .resolution (.ok record)) :
    ∃ item ∈ asked, item.id = id ∧ scopeMatches item.scope expected = true := by
  unfold ApprovalQueue.resolve at hanswer
  cases hpending : s.queue.pending.lookup id with
  | none =>
    rw [hpending] at hanswer
    simp only [ApprovalQueue.resolvePast] at hanswer
    split at hanswer
    · cases hanswer
    · split_ifs at hanswer <;> cases hanswer
  | some item =>
    rw [hpending] at hanswer
    simp only [Option.any_some] at hanswer
    by_cases hlapsed : ApprovalQueue.lapsed item now = true
    · rw [if_pos hlapsed] at hanswer
      cases settledEffect_ok hanswer
    · rw [if_neg hlapsed] at hanswer
      by_cases hmatch : scopeMatches item.scope expected = true
      · obtain ⟨hid, hitem⟩ := h.pending id item hpending
        exact ⟨item, hitem, hid, hmatch⟩
      · rw [if_pos (by simpa using hmatch)] at hanswer
        split at hanswer <;> cases hanswer

end Answers

/-- One decision for each scope, in every run whose steps all meet the condition and whose ids are
all different. -/
theorem approvals_decidedOnce (host : ApprovalHost) (events : List ApprovalEvent)
    (hids : ((askedIn (host.run events).1).map PendingApprovalRequest.id).Nodup)
    (hcond : ∀ m ∈ (host.run events).1, Condition host m.event m.before) :
    OneDecision (host.run events).1 := by
  have hinv := invariant_run hids hcond
  -- the invariant before each moment of the run
  have hmoment : ∀ before m after, (host.run events).1 = before ++ m :: after →
      Invariant m.before (askedIn before) (decidedIn before) ∧
        ((askedIn before).map PendingApprovalRequest.id).Nodup ∧
        m.effect = (host.step m.event m.before).1 := by
    intro before m after hsplit
    obtain ⟨⟨earlier, hearlier⟩, heffect⟩ := run_split hsplit
    have hbefore : (host.run earlier).1 = before := by rw [hearlier]
    have hstate : (host.run earlier).2 = m.before := by rw [hearlier]
    rw [hsplit, askedIn_append, List.map_append] at hids
    have hids' := hids.of_append_left
    refine ⟨?_, hids', heffect⟩
    rw [← hbefore] at hids'
    rw [← hstate, ← hbefore]
    refine invariant_run hids' fun x hx => hcond x ?_
    rw [hbefore] at hx
    rw [hsplit]
    exact List.mem_append_left _ hx
  have hlater : ∀ before m after, (host.run events).1 = before ++ m :: after →
      ∀ item ∈ askedIn before ++ m.effect.asked, item ∈ askedIn (host.run events).1 := by
    intro before m after hsplit item hitem
    rw [hsplit, askedIn_append]
    rcases List.mem_append.mp hitem with hitem | hitem
    · exact List.mem_append_left _ hitem
    · exact List.mem_append_right _ (List.mem_flatMap.mpr ⟨m, List.mem_cons_self, hitem⟩)
  have hexpires : ∀ m ∈ (host.run events).1, ∀ {scope details uuid now autoDeny},
      m.event = .requestScoped scope details uuid now autoDeny →
      (ApprovalQueue.scopedItem host.options scope details uuid now).expiresAt ≠ some none := by
    intro m hm scope details uuid now autoDeny hevent
    have := hcond m hm
    rwa [hevent] at this
  refine ⟨nodup_scopes hinv hids, ?_, ?_, ?_, ?_, ?_⟩
  · intro item hitem hscoped
    obtain ⟨scope, hscope⟩ := Option.ne_none_iff_exists'.mp hscoped
    exact hinv.decidedOnce hids hitem hscope
  · intro before m after hsplit scope details uuid now autoDeny hevent item hitem hscope d hd hid
    obtain ⟨hinv, hids, heffect⟩ := hmoment before m after hsplit
    rw [hevent] at heffect
    rw [heffect]
    have hanswer : (m.before.queue.requestScoped host.options scope details uuid now autoDeny).1 =
        ⟨[], [], .settled d.approved⟩ := hinv.sameAnswer hids hitem hscope hd hid
    simp [ApprovalHost.step, hanswer]
  · intro m hm scope details uuid now autoDeny id hevent hanswer
    obtain ⟨before, after, hsplit⟩ := List.append_of_mem hm
    obtain ⟨hinv, -, heffect⟩ := hmoment before m after hsplit
    rw [hevent] at heffect
    rw [heffect] at hanswer
    obtain ⟨item, hitem, hown⟩ := hinv.ownPromise (hexpires m hm hevent) hanswer
    refine ⟨item, hlater before m after hsplit item ?_, hown⟩
    rw [heffect]
    exact hitem
  · intro before m after hsplit scope details uuid now autoDeny answer hevent hanswer
    obtain ⟨hinv, -, heffect⟩ := hmoment before m after hsplit
    have hm : m ∈ (host.run events).1 := hsplit ▸ List.mem_append_right _ List.mem_cons_self
    rw [heffect, hevent] at hanswer
    exact hinv.ownAnswer (hexpires m hm hevent) hanswer
  · intro m hm id approved resolvedBy expected now record hevent hanswer
    obtain ⟨before, after, hsplit⟩ := List.append_of_mem hm
    obtain ⟨hinv, -, heffect⟩ := hmoment before m after hsplit
    rw [heffect, hevent] at hanswer
    obtain ⟨item, hitem, hown⟩ := hinv.ownResolution hanswer
    exact ⟨item, hlater before m after hsplit item (List.mem_append_left _ hitem), hown⟩

/-- A queue as it comes, over a store that gives back what was put. -/
def plainHost : ApprovalHost := ⟨⟨false, none, false, none, none⟩, compareStrings, id⟩

def deployScope : ApprovalScope := ⟨"goal-studio", "run-1", "target-1", .finite 0, "deploy"⟩

def midnight : Timestamp := ⟨0, epoch_valid⟩

def requestDeploy (uuid : String) : ApprovalEvent :=
  .requestScoped deployScope ⟨none, none, none, none, none, none⟩ uuid midnight false

/-- An approval that is written before the restart, and answers after it. -/
def restarted : List ApprovalEvent :=
  [requestDeploy "1", .write false, .resolve "appr-1" true (some "ada") none midnight,
    .write false, .restart midnight false fun _ => false, requestDeploy "2"]

theorem approvals_decidedOnce_restarted : OneDecision (plainHost.run restarted).1 :=
  approvals_decidedOnce plainHost restarted (by decide +kernel) (by decide +kernel)

/-- The process ends before the approval is written. -/
def unwrittenApproval : List ApprovalEvent :=
  [requestDeploy "1", .write false, .resolve "appr-1" true (some "ada") none midnight,
    .restart midnight false fun _ => false, requestDeploy "2"]

theorem OneDecision.check {moments : List Moment} (h : OneDecision moments) :
    ((askedIn moments).all fun item => item.scope.isNone ||
      ((decidedIn moments).filter (·.id = item.id)).length ≤ 1) = true := by
  rw [List.all_eq_true]
  intro item hitem
  cases hscope : item.scope with
  | none => rfl
  | some scope => exact decide_eq_true (h.decidedOnce item hitem (by simp [hscope]))

/-- The approved request expires, and its scope is refused from then on. -/
theorem approval_lost : ¬ OneDecision (plainHost.run unwrittenApproval).1 :=
  fun h => absurd h.check (by decide +kernel)

end Run

end Wazir.Core
