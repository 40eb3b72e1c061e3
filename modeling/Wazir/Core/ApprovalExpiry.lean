import Wazir.Core.OneDecision

/-! When a pending request may still be approved. `resolve` looks at the clock and at the scope it
was given; `approveAll` and a request's own `resolve` look at neither. Each of them reads the clock
once more when it settles the request. -/

namespace Wazir.Core

open ApprovalQueue

/-- The promise of a request was settled, at the time of its record. -/
structure Resolution where
  item : PendingApprovalRequest
  approved : Bool
  now : Timestamp

inductive ApprovalCall where
  | requestScoped (scope : ApprovalScope) (details : ScopedDetails) (uuid : String)
    (now : Timestamp) (autoDeny : Bool)
  | enqueue (request : PolicyActionRequest) (decision : PolicyDecision)
    (jobId taskId agentId : Option String) (ttlMs : Option JsNumber) (uuid : String)
    (now : Timestamp) (env : Surroundings)
  /-- The clock is read for the check, and again for the record. -/
  | resolve (id : String) (approved : Bool) (resolvedBy : Option String)
    (expected : Option PartialScope) (checked settled : Timestamp)
  | approve (id : String) (resolvedBy : Option String) (checked settled : Timestamp)
  | deny (id : String) (resolvedBy : Option String) (checked settled : Timestamp)
  /-- A reading for each request. -/
  | approveAll (nows : String → Timestamp)
  | denyAll (nows : String → Timestamp)
  | itemResolve (id : String) (approved : Bool) (resolvedBy : Option String) (now : Timestamp)
  | timer (id : String) (now : Timestamp)

/-- The request that a call names. -/
def ApprovalCall.addressed : ApprovalCall → Option String
  | .resolve id .. => some id
  | .approve id .. => some id
  | .deny id .. => some id
  | .itemResolve id .. => some id
  | .timer id _ => some id
  | _ => none

namespace ApprovalQueue

/-- `item.resolve`, which does nothing once the request is settled. Where the record cannot be made
the promise stays open. -/
def resolveItem (limit : ℕ) (id : String) (approved : Bool) (resolvedBy : Option String)
    (now : Timestamp) (q : ApprovalQueue) : Except String (List Resolution) × ApprovalQueue :=
  match q.pending.lookup id with
  | none => (.ok [], q)
  | some item =>
    let (record, q) := q.settle limit item approved resolvedBy now
    (record.map fun _ => [⟨item, approved, now⟩], q)

/-- The promises that a call settled, also when it threw. -/
def settledBy (res : Except String (List Resolution) × ApprovalQueue) :
    List Resolution × ApprovalQueue :=
  match res.1 with
  | .ok done => (done, res.2)
  | .error _ => ([], res.2)

/-- `resolve`, with both of its clock readings. -/
def resolveAt (limit : ℕ) (id : String) (approved : Bool) (resolvedBy : Option String)
    (expected : Option PartialScope) (checked settled : Timestamp) (q : ApprovalQueue) :
    List Resolution × ApprovalQueue :=
  match q.pending.lookup id with
  | none => ([], q)
  | some item =>
    if lapsed item checked then settledBy (q.resolveItem limit id false (some "timeout") settled)
    else if expected.any fun e => !scopeMatches item.scope e then ([], q)
    else settledBy (q.resolveItem limit id approved resolvedBy settled)

/-- The loop of `approveAll` and `denyAll`, which ends at a request that throws. -/
def resolveEach (limit : ℕ) (approved : Bool) (nows : String → Timestamp) :
    List PendingApprovalRequest → ApprovalQueue → List Resolution × ApprovalQueue
  | [], q => ([], q)
  | item :: rest, q =>
    match q.resolveItem limit item.id approved none (nows item.id) with
    | (.error _, q) => ([], q)
    | (.ok done, q) =>
      let (more, q) := resolveEach limit approved nows rest q
      (done ++ more, q)

/-- `Array.from(this.pending.values())`, the oldest first. -/
def items (q : ApprovalQueue) : List PendingApprovalRequest :=
  (q.pending.entries.map fun kv => kv.2).reverse

end ApprovalQueue

/-- A call of the queue, with the promises it settled. -/
def ApprovalHost.answer (host : ApprovalHost) (call : ApprovalCall) (q : ApprovalQueue) :
    List Resolution × ApprovalQueue :=
  match call with
  | .requestScoped scope details uuid now autoDeny =>
    ([], (q.requestScoped host.options scope details uuid now autoDeny).2)
  | .enqueue request decision jobId taskId agentId ttlMs uuid now env =>
    ([], (q.enqueue host.options request decision jobId taskId agentId ttlMs uuid now env).2)
  | .resolve id approved resolvedBy expected checked settled =>
    q.resolveAt host.options.limit id approved resolvedBy expected checked settled
  | .approve id resolvedBy checked settled =>
    q.resolveAt host.options.limit id true resolvedBy none checked settled
  | .deny id resolvedBy checked settled =>
    q.resolveAt host.options.limit id false resolvedBy none checked settled
  | .approveAll nows => q.resolveEach host.options.limit true nows q.items
  | .denyAll nows => q.resolveEach host.options.limit false nows q.items
  | .itemResolve id approved resolvedBy now =>
    settledBy (q.resolveItem host.options.limit id approved resolvedBy now)
  | .timer id now => settledBy (q.resolveItem host.options.limit id false (some "timeout") now)

/-- A call, the queue it found and the promises it settled. -/
structure Answered where
  call : ApprovalCall
  before : ApprovalQueue
  resolutions : List Resolution

/-- A run of calls. -/
def ApprovalHost.answers (host : ApprovalHost) : List ApprovalCall → ApprovalQueue → List Answered
  | [], _ => []
  | call :: rest, q =>
    ⟨call, q, (host.answer call q).1⟩ :: host.answers rest (host.answer call q).2

/-- What an approval has to be: before the expiry and, where the request has a scope, by a call that
names it. -/
def Answered.Absolute (m : Answered) : Prop :=
  ∀ r ∈ m.resolutions, r.approved = true →
    (∀ t : Timestamp, r.item.expiresAt = some (some t) → r.now.1 < t.1) ∧
      (r.item.scope ≠ none → m.call.addressed = some r.item.id)

/-- A date that has an ISO text, or none at all. -/
def recordable (item : PendingApprovalRequest) : Bool := item.expiresAt ≠ some none

/-- The clock does not pass the request's expiry between the two readings. -/
def Punctual (q : ApprovalQueue) (id : String) (expected : Option PartialScope)
    (checked settled : Timestamp) : Prop :=
  ∀ item, q.pending.lookup id = some item → expected.all (scopeMatches item.scope) = true →
    lapsed item settled = true → lapsed item checked = true

/-- Whoever approves without a check does so in time, and nobody approves everything while a request
with a scope is pending. -/
def ApprovalCall.Mindful (q : ApprovalQueue) : ApprovalCall → Prop
  | .resolve id true _ expected checked settled => Punctual q id expected checked settled
  | .approve id _ checked settled => Punctual q id none checked settled
  | .approveAll nows => ∀ item ∈ q.items.takeWhile recordable,
      lapsed item (nows item.id) = false ∧ item.scope = none
  | .itemResolve id true _ now => ∀ item, q.pending.lookup id = some item → lapsed item now = false
  | _ => True

variable {item : PendingApprovalRequest}

section Resolving

variable {limit : ℕ} {id : String} {approved : Bool} {resolvedBy : Option String} {now : Timestamp}
  {q : ApprovalQueue}

theorem not_lapsed_iff : lapsed item now = false ↔
    ∀ t : Timestamp, item.expiresAt = some (some t) → now.1 < t.1 := by
  unfold lapsed
  split
  · rename_i t ht
    simp [ht]
  · rename_i hnone
    exact iff_of_true rfl fun t ht => absurd ht (hnone t)

theorem recordable_of_lapsed (h : lapsed item now = true) :
    recordable item = true := by
  unfold lapsed at h
  split at h
  · rename_i t ht
    simp [recordable, ht]
  · cases h

theorem settle_recordable (h : recordable item = true) :
    ∃ r, (q.settle limit item approved resolvedBy now).1 = .ok r := by
  obtain ⟨r, hr⟩ := toRecord_total (of_decide_eq_true h)
    (if resolvedBy = some "timeout" then .expired else if approved then .approved else .denied)
    (some now) (some (resolvedBy.getD (if approved then "approver" else "approver_denied")))
  exact ⟨r, by simp only [settle, hr]⟩

theorem settle_unrecordable (h : recordable item = false) :
    ∃ e, (q.settle limit item approved resolvedBy now).1 = .error e := by
  have hdate : item.expiresAt = some none := by simpa [recordable] using h
  exact ⟨"Invalid time value", by simp [settle, toRecord, hdate, optionalIso, Except.map]⟩

theorem settle_pending (limit : ℕ) (item : PendingApprovalRequest) (approved : Bool)
    (resolvedBy : Option String) (now : Timestamp) (q : ApprovalQueue) :
    (q.settle limit item approved resolvedBy now).2.pending = q.pending.erase item.id := by
  unfold settle
  simp only
  split <;> rfl

theorem resolveItem_absent (h : q.pending.lookup id = none) :
    q.resolveItem limit id approved resolvedBy now = (.ok [], q) := by
  simp only [resolveItem, h]

theorem resolveItem_pending (h : q.pending.lookup id = some item) :
    (q.resolveItem limit id approved resolvedBy now).2.pending = q.pending.erase item.id ∧
      if recordable item then
        (q.resolveItem limit id approved resolvedBy now).1 = .ok [⟨item, approved, now⟩]
      else ∃ e, (q.resolveItem limit id approved resolvedBy now).1 = .error e := by
  simp only [resolveItem, h]
  refine ⟨settle_pending .., ?_⟩
  split_ifs with hrec
  · obtain ⟨r, hr⟩ := settle_recordable hrec
    rw [hr]
    rfl
  · obtain ⟨e, he⟩ := settle_unrecordable (Bool.eq_false_iff.mpr hrec)
    exact ⟨e, by rw [he]; rfl⟩

/-- What a single answer settles. -/
theorem mem_settledBy {r : Resolution} :
    r ∈ (settledBy (q.resolveItem limit id approved resolvedBy now)).1 ↔
      ∃ item, q.pending.lookup id = some item ∧ recordable item = true ∧
        r = ⟨item, approved, now⟩ := by
  cases h : q.pending.lookup id with
  | none => simp [resolveItem_absent h, settledBy]
  | some item =>
    have hres : if recordable item then
        (q.resolveItem limit id approved resolvedBy now).1 = .ok [⟨item, approved, now⟩]
      else ∃ e, (q.resolveItem limit id approved resolvedBy now).1 = .error e :=
      (resolveItem_pending h).2
    split_ifs at hres with hrec
    · simp [settledBy, hres, hrec]
    · obtain ⟨e, he⟩ := hres
      simp [settledBy, he, hrec]

end Resolving

/-- A request is filed under its id. -/
def Keyed (q : ApprovalQueue) : Prop := ∀ id item, q.pending.lookup id = some item → item.id = id

variable {resolvedBy : Option String} {expected : Option PartialScope}

section Each

variable {limit : ℕ} {approved : Bool} {nows : String → Timestamp} {q : ApprovalQueue}

theorem mem_items :
    item ∈ q.items ↔ ∃ id, q.pending.lookup id = some item := by
  simp only [items, List.mem_reverse, List.mem_map, Sigma.exists]
  constructor
  · rintro ⟨id, x, hx, rfl⟩
    exact ⟨id, AList.mem_lookup_iff.mpr hx⟩
  · rintro ⟨id, hid⟩
    exact ⟨id, item, AList.mem_lookup_iff.mp hid, rfl⟩

theorem Keyed.items_nodup (h : Keyed q) : (q.items.map (·.id)).Nodup := by
  have hkeys : (q.pending.entries.map fun kv => kv.2).map (·.id) = q.pending.keys := by
    rw [List.map_map]
    exact List.map_congr_left fun kv hkv => h kv.1 kv.2 (AList.mem_lookup_iff.mpr hkv)
  rw [items, List.map_reverse, List.nodup_reverse, hkeys]
  exact q.pending.keys_nodup

theorem lookup_erase_of {id gone : String} (h : (q.pending.erase gone).lookup id = some item) :
    q.pending.lookup id = some item := by
  by_cases hid : id = gone
  · subst hid
    rw [AList.lookup_erase] at h
    cases h
  · rwa [AList.lookup_erase_ne hid] at h

/-- Answering takes requests off the queue. -/
theorem resolveItem_shrinks {id : String} {now : Timestamp} {other : String}
    (h : (q.resolveItem limit id approved resolvedBy now).2.pending.lookup other = some item) :
    q.pending.lookup other = some item := by
  cases hid : q.pending.lookup id with
  | none => rwa [resolveItem_absent hid] at h
  | some x =>
    rw [(resolveItem_pending hid).1] at h
    exact lookup_erase_of h

theorem settledBy_queue (res : Except String (List Resolution) × ApprovalQueue) :
    (settledBy res).2 = res.2 := by
  unfold settledBy
  split <;> rfl

theorem settledBy_shrinks {id : String} {now : Timestamp} {other : String}
    (h : (settledBy (q.resolveItem limit id approved resolvedBy now)).2.pending.lookup other =
      some item) : q.pending.lookup other = some item :=
  resolveItem_shrinks (settledBy_queue _ ▸ h)

theorem resolveEach_shrinks {items : List PendingApprovalRequest} {other : String}
    (h : (q.resolveEach limit approved nows items).2.pending.lookup other = some item) :
    q.pending.lookup other = some item := by
  induction items generalizing q with
  | nil => exact h
  | cons first rest ih =>
    rw [resolveEach] at h
    split at h
    · rename_i e q' heq
      obtain rfl : _ = q' := congrArg Prod.snd heq
      exact resolveItem_shrinks h
    · rename_i done q' heq
      obtain rfl : _ = q' := congrArg Prod.snd heq
      exact resolveItem_shrinks (ih h)

/-- The loop settles the requests up to the first whose expiry has no text. -/
theorem resolveEach_spec {items : List PendingApprovalRequest}
    (hpending : ∀ item ∈ items, q.pending.lookup item.id = some item)
    (hnodup : (items.map (·.id)).Nodup) :
    (q.resolveEach limit approved nows items).1 =
      (items.takeWhile recordable).map fun item => ⟨item, approved, nows item.id⟩ := by
  induction items generalizing q with
  | nil => rfl
  | cons item rest ih =>
    obtain ⟨hnot, hrest⟩ := List.nodup_cons.mp hnodup
    have hitem := hpending item List.mem_cons_self
    obtain ⟨hq, hres⟩ : (q.resolveItem limit item.id approved none (nows item.id)).2.pending =
        q.pending.erase item.id ∧
      if recordable item then
        (q.resolveItem limit item.id approved none (nows item.id)).1 =
          .ok [⟨item, approved, nows item.id⟩]
      else ∃ e, (q.resolveItem limit item.id approved none (nows item.id)).1 = .error e :=
      resolveItem_pending hitem
    rw [resolveEach, List.takeWhile_cons]
    split_ifs at hres with hrec
    · have hleft : ∀ x ∈ rest, (q.resolveItem limit item.id approved none
          (nows item.id)).2.pending.lookup x.id = some x := fun x hx => by
        have hne : x.id ≠ item.id := fun heq => hnot (List.mem_map.mpr ⟨x, hx, heq⟩)
        rw [hq, AList.lookup_erase_ne hne]
        exact hpending x (List.mem_cons_of_mem _ hx)
      have hmore := ih hleft hrest
      split
      · rename_i e q' heq
        rw [heq] at hres
        cases hres
      · rename_i done q' heq
        rw [heq] at hres hmore
        cases hres
        simp only [hrec, if_true, List.map_cons, hmore, List.singleton_append]
    · obtain ⟨e, he⟩ := hres
      split
      · simp [hrec]
      · rename_i done q' heq
        rw [heq] at he
        cases he

theorem Keyed.resolveAll (h : Keyed q) (limit : ℕ) (approved : Bool) (nows : String → Timestamp) :
    (q.resolveEach limit approved nows q.items).1 =
      (q.items.takeWhile recordable).map fun item => ⟨item, approved, nows item.id⟩ := by
  refine resolveEach_spec (fun item hitem => ?_) h.items_nodup
  obtain ⟨id, hid⟩ := mem_items.mp hitem
  rwa [h id item hid]

theorem Keyed.shrunk {q' : ApprovalQueue} (h : Keyed q)
    (hless : ∀ id item, q'.pending.lookup id = some item → q.pending.lookup id = some item) :
    Keyed q' := fun id item hid => h id item (hless id item hid)

theorem Keyed.created (h : Keyed q) (item : PendingApprovalRequest) :
    Keyed (q.createPending item).2 := by
  obtain ⟨records, hq, -⟩ := createPending_spec item q
  rw [hq]
  intro id x hx
  by_cases hid : id = item.id
  · subst hid
    rw [AList.lookup_insert] at hx
    cases hx
    rfl
  · rw [AList.lookup_insert_ne hid] at hx
    exact h id x hx

theorem resolveAt_shrinks {id : String} {checked settled : Timestamp} {other : String}
    (h : (q.resolveAt limit id approved resolvedBy expected checked settled).2.pending.lookup other =
      some item) : q.pending.lookup other = some item := by
  unfold resolveAt at h
  split at h
  · exact h
  · split_ifs at h
    · exact settledBy_shrinks h
    · exact h
    · exact settledBy_shrinks h

end Each

section Calls

variable {host : ApprovalHost} {q : ApprovalQueue}

/-- Every call keeps the requests under their ids. -/
theorem Keyed.answer (h : Keyed q) (call : ApprovalCall) : Keyed (host.answer call q).2 := by
  cases call with
  | requestScoped scope details uuid now autoDeny =>
    simp only [ApprovalHost.answer]
    rcases requestScoped_cases host.options scope details uuid now autoDeny q with
      ⟨e, hout⟩ | ⟨-, ⟨id, -, hout⟩ | ⟨record, -, -, hout⟩ | ⟨-, hout⟩ | ⟨-, -, hout⟩⟩
    · rw [hout]
      exact h
    · rw [hout]
      exact h
    · rw [hout]
      exact h
    · rw [hout]
      exact h
    · rw [hout]
      exact h.created _
  | enqueue request decision jobId taskId agentId ttlMs uuid now env =>
    simp only [ApprovalHost.answer, ApprovalQueue.enqueue]
    split_ifs
    · exact h
    · exact h
    · exact h
    · exact h.created _
  | resolve id approved resolvedBy expected checked settled =>
    exact h.shrunk fun _ _ => resolveAt_shrinks
  | approve id resolvedBy checked settled => exact h.shrunk fun _ _ => resolveAt_shrinks
  | deny id resolvedBy checked settled => exact h.shrunk fun _ _ => resolveAt_shrinks
  | approveAll nows => exact h.shrunk fun _ _ => resolveEach_shrinks
  | denyAll nows => exact h.shrunk fun _ _ => resolveEach_shrinks
  | itemResolve id approved resolvedBy now => exact h.shrunk fun _ _ => settledBy_shrinks
  | timer id now => exact h.shrunk fun _ _ => settledBy_shrinks

theorem mismatch_iff {scope : Option ApprovalScope} :
    (expected.any fun e => !scopeMatches scope e) = true ↔
      expected.all (scopeMatches scope) = false := by
  cases expected <;> simp

/-- What `resolve` approves: a pending request of the right scope that had not run out when it
looked. -/
theorem resolveAt_approved {limit : ℕ} {id : String} {approved : Bool} {checked settled : Timestamp}
    {r : Resolution} :
    (r ∈ (q.resolveAt limit id approved resolvedBy expected checked settled).1 ∧
        r.approved = true) ↔
      approved = true ∧ ∃ item, q.pending.lookup id = some item ∧ lapsed item checked = false ∧
        expected.all (scopeMatches item.scope) = true ∧ recordable item = true ∧
          r = ⟨item, true, settled⟩ := by
  unfold resolveAt
  cases hitem : q.pending.lookup id with
  | none => simp
  | some item =>
    simp only [Option.some.injEq, exists_eq_left']
    split_ifs with hlapsed hscope
    · simp only [mem_settledBy, hitem, Option.some.injEq, exists_eq_left', hlapsed]
      constructor
      · rintro ⟨⟨-, rfl⟩, hr⟩
        cases hr
      · rintro ⟨-, hnot, -⟩
        cases hnot
    · simp [mismatch_iff.mp hscope]
    · have hall : expected.all (scopeMatches item.scope) = true := by
        simpa using mt mismatch_iff.mpr hscope
      simp only [mem_settledBy, hitem, Option.some.injEq, exists_eq_left']
      constructor
      · rintro ⟨⟨hrec, rfl⟩, ha⟩
        obtain rfl : approved = true := ha
        exact ⟨rfl, Bool.eq_false_iff.mpr hlapsed, hall, hrec, rfl⟩
      · rintro ⟨rfl, -, -, hrec, rfl⟩
        exact ⟨⟨hrec, rfl⟩, rfl⟩

theorem Absolute.iff_not_lapsed {m : Answered} : m.Absolute ↔ ∀ r ∈ m.resolutions,
    r.approved = true → lapsed r.item r.now = false ∧
      (r.item.scope ≠ none → m.call.addressed = some r.item.id) := by
  simp only [Answered.Absolute, not_lapsed_iff]

/-- An answer to a request that is named only has to be in time. -/
theorem absolute_named (h : Keyed q) {call : ApprovalCall} {id : String}
    (hnamed : call.addressed = some id) {done : List Resolution}
    (hdone : ∀ r ∈ done, q.pending.lookup id = some r.item) :
    (⟨call, q, done⟩ : Answered).Absolute ↔
      ∀ r ∈ done, r.approved = true → lapsed r.item r.now = false := by
  rw [Absolute.iff_not_lapsed]
  refine forall₂_congr fun r hr => imp_congr_right fun _ => and_iff_left fun _ => ?_
  rw [hnamed, h id r.item (hdone r hr)]

theorem absolute_resolveAt (h : Keyed q) {call : ApprovalCall} {limit : ℕ} {id : String}
    {checked settled : Timestamp} (hnamed : call.addressed = some id) :
    (⟨call, q, (q.resolveAt limit id true resolvedBy expected checked settled).1⟩ :
      Answered).Absolute ↔ Punctual q id expected checked settled := by
  rw [Absolute.iff_not_lapsed]
  constructor
  · intro habs item hitem hscope hlate
    by_contra hchecked
    have hr : (⟨item, true, settled⟩ : Resolution) ∈
        (q.resolveAt limit id true resolvedBy expected checked settled).1 ∧ true = true :=
      resolveAt_approved.mpr ⟨rfl, item, hitem, Bool.eq_false_iff.mpr hchecked, hscope,
        recordable_of_lapsed hlate, rfl⟩
    exact absurd hlate (Bool.eq_false_iff.mp (habs _ hr.1 rfl).1)
  · intro hpunctual r hr ha
    obtain ⟨-, item, hitem, hchecked, hscope, -, rfl⟩ := resolveAt_approved.mp ⟨hr, ha⟩
    refine ⟨?_, fun _ => hnamed.trans (congrArg some (h id item hitem).symm)⟩
    by_contra hlate
    rw [hpunctual item hitem hscope (Bool.not_eq_false _ ▸ hlate)] at hchecked
    cases hchecked

/-- A call that denies approves nothing. -/
theorem absolute_denied {call : ApprovalCall} {done : List Resolution}
    (h : ∀ r ∈ done, r.approved = false) : (⟨call, q, done⟩ : Answered).Absolute :=
  fun r hr ha => by rw [h r hr] at ha; cases ha

theorem absolute_itemResolve (h : Keyed q) {limit : ℕ} {id : String} {approved : Bool}
    {now : Timestamp} :
    (⟨.itemResolve id approved resolvedBy now, q,
        (settledBy (q.resolveItem limit id approved resolvedBy now)).1⟩ : Answered).Absolute ↔
      (approved = true → ∀ item, q.pending.lookup id = some item → lapsed item now = false) := by
  rw [absolute_named h rfl fun r hr => by
    obtain ⟨item, hitem, -, rfl⟩ := mem_settledBy.mp hr
    exact hitem]
  constructor
  · intro habs ha item hitem
    by_contra hlate
    have hlate : lapsed item now = true := Bool.not_eq_false _ ▸ hlate
    have hr : (⟨item, approved, now⟩ : Resolution) ∈
        (settledBy (q.resolveItem limit id approved resolvedBy now)).1 :=
      mem_settledBy.mpr ⟨item, hitem, recordable_of_lapsed hlate, rfl⟩
    exact absurd hlate (Bool.eq_false_iff.mp (habs _ hr ha))
  · intro hmind r hr ha
    obtain ⟨item, hitem, -, rfl⟩ := mem_settledBy.mp hr
    exact hmind ha item hitem

/-- One call keeps to the expiries and the scopes exactly if it is a mindful one. -/
theorem absolute_iff (h : Keyed q) (call : ApprovalCall) :
    (⟨call, q, (host.answer call q).1⟩ : Answered).Absolute ↔ call.Mindful q := by
  cases call with
  | requestScoped scope details uuid now autoDeny => exact iff_of_true (by rintro _ ⟨⟩) trivial
  | enqueue request decision jobId taskId agentId ttlMs uuid now env =>
    exact iff_of_true (by rintro _ ⟨⟩) trivial
  | resolve id approved resolvedBy expected checked settled =>
    cases approved with
    | true => exact absolute_resolveAt h rfl
    | false =>
      refine iff_of_true (absolute_denied fun r hr => ?_) trivial
      by_contra ha
      cases (resolveAt_approved.mp ⟨hr, Bool.not_eq_false _ ▸ ha⟩).1
  | approve id resolvedBy checked settled => exact absolute_resolveAt h rfl
  | deny id resolvedBy checked settled =>
    refine iff_of_true (absolute_denied fun r hr => ?_) trivial
    by_contra ha
    cases (resolveAt_approved.mp ⟨hr, Bool.not_eq_false _ ▸ ha⟩).1
  | approveAll nows =>
    rw [Absolute.iff_not_lapsed]
    simp only [ApprovalHost.answer, h.resolveAll, List.forall_mem_map, ApprovalCall.Mindful,
      ApprovalCall.addressed, reduceCtorEq, imp_false, not_not, true_imp_iff]
  | denyAll nows =>
    refine iff_of_true (absolute_denied fun r hr => ?_) trivial
    rw [ApprovalHost.answer, h.resolveAll] at hr
    obtain ⟨item, -, rfl⟩ := List.mem_map.mp hr
    rfl
  | itemResolve id approved resolvedBy now =>
    refine (absolute_itemResolve h).trans ?_
    cases approved with
    | true => simp [ApprovalCall.Mindful]
    | false => simp [ApprovalCall.Mindful]
  | timer id now =>
    refine iff_of_true (absolute_denied fun r hr => ?_) trivial
    obtain ⟨item, -, -, rfl⟩ := mem_settledBy.mp hr
    rfl

/-- Every answer of a run is given on a queue that files its requests under their ids. -/
theorem answers_keyed (h : Keyed q) {calls : List ApprovalCall} {m : Answered}
    (hm : m ∈ host.answers calls q) :
    Keyed m.before ∧ m.resolutions = (host.answer m.call m.before).1 := by
  induction calls generalizing q with
  | nil => cases hm
  | cons call rest ih =>
    rcases List.mem_cons.mp hm with rfl | hm
    · exact ⟨h, rfl⟩
    · exact ih (h.answer call) hm

/-- In every run from a queue on which nothing is pending, all approvals are in time and addressed
exactly if all calls are mindful. -/
theorem approvals_absolute_iff (host : ApprovalHost) {q : ApprovalQueue} (hq : q.pending = ∅)
    (calls : List ApprovalCall) :
    (∀ m ∈ host.answers calls q, m.Absolute) ↔
      ∀ m ∈ host.answers calls q, m.call.Mindful m.before := by
  have hkeyed : Keyed q := by
    intro id item hitem
    rw [hq] at hitem
    cases hitem
  refine forall₂_congr fun m hm => ?_
  obtain ⟨hbefore, hres⟩ := answers_keyed hkeyed hm
  have hiff : (⟨m.call, m.before, (host.answer m.call m.before).1⟩ : Answered).Absolute ↔
      m.call.Mindful m.before := absolute_iff hbefore m.call
  rwa [← hres] at hiff

end Calls

instance (m : Answered) : Decidable m.Absolute := decidable_of_iff' _ Absolute.iff_not_lapsed

/-- A request that is asked at midnight and runs out a second later. -/
def askDeploy : ApprovalCall :=
  .requestScoped deployScope ⟨none, none, none, none, none, some (.finite 1000)⟩ "1" midnight false

def soon : Timestamp := ⟨999, by decide⟩

def late : Timestamp := ⟨2000, by decide⟩

/-- The timer is late, and whoever approves everything approves a deployment that had run out. -/
theorem approveAll_late : ¬ ∀ (host : ApprovalHost) (calls : List ApprovalCall),
    ∀ m ∈ host.answers calls emptyQueue, m.Absolute := by
  intro hall
  have hrun : ¬ ∀ m ∈ plainHost.answers [askDeploy, .approveAll fun _ => late, .timer "appr-1" late]
      emptyQueue, m.Absolute := by
    decide +kernel
  exact hrun (hall plainHost _)

/-- An approval in time, and one that comes too late and expires the request. -/
theorem approvals_absolute_inTime :
    (∀ m ∈ plainHost.answers [askDeploy, .approve "appr-1" none soon soon] emptyQueue,
      m.call.Mindful m.before) ∧
    (∀ m ∈ plainHost.answers [askDeploy, .approve "appr-1" none late late] emptyQueue,
      m.call.Mindful m.before) ∧
    ((plainHost.answers [askDeploy, .approve "appr-1" none soon soon] emptyQueue).flatMap
      (·.resolutions)).map (·.approved) = [true] ∧
    ((plainHost.answers [askDeploy, .approve "appr-1" none late late] emptyQueue).flatMap
      (·.resolutions)).map (·.approved) = [false] :=
  ⟨(approvals_absolute_iff plainHost rfl _).mp (by decide +kernel),
    (approvals_absolute_iff plainHost rfl _).mp (by decide +kernel), by decide +kernel,
    by decide +kernel⟩

end Wazir.Core
