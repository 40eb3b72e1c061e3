import Wazir.Shared.Values
import Wazir.Shared.Window

/-! Durable dispatches (`server.ts`): the record kept for each request and what every
atomic `update` of it does. A closure reads the clock more than once; `now k` is its reading
number `k`. -/

namespace Wazir.Dispatch

abbrev RequestId := String
abbrev ComputerId := String

def maxQueuedPerComputer : ℕ := 100
def maxEventsPerChannel : ℕ := 10000
def orphanPendingIndexMs : ℤ := 60000

inductive ReplayPolicy where
  | never | readOnly
  deriving DecidableEq

structure WorkerExecutionRequest where
  requestId : RequestId
  executionId : String
  replayPolicy : Option ReplayPolicy
  deriving DecidableEq

/-- `other` is any type that neither side knows. -/
inductive WorkerEventType where
  | retry | leaseAcquired | leaseRenewed | started | token | toolCall | completed | failed
  | cancelled | other (name : String)
  deriving DecidableEq

structure WorkerExecutionEvent where
  executionId : String
  type : WorkerEventType
  data : Json
  at_ : ℤ

structure ExecutionOutcome where
  ok : Bool
  output : String
  inputTokens : ℕ
  outputTokens : ℕ
  durationMs : ℕ
  error : Option String
  deriving DecidableEq

structure Lease where
  token : String
  expiresAt : ℤ
  deriving DecidableEq

structure DurableDispatch where
  computerId : ComputerId
  request : WorkerExecutionRequest
  events : List WorkerExecutionEvent
  outcome : Option ExecutionOutcome
  completedAt : Option ℤ
  attempt : ℕ
  /-- `recovery === 'orphaned'`. -/
  orphaned : Bool
  lease : Option Lease

/-- The value of a pending-index entry. -/
structure PendingEntry where
  computerId : ComputerId
  at_ : ℤ

namespace DurableDispatch

/-- `[...events.slice(-(MAX_EVENTS_PER_CHANNEL - 1)), e]`. -/
def pushEvent (r : DurableDispatch) (e : WorkerExecutionEvent) : DurableDispatch :=
  { r with events := lastN (maxEventsPerChannel - 1) r.events ++ [e] }

section

variable (r : DurableDispatch) (e : WorkerExecutionEvent)

@[simp] theorem pushEvent_computerId : (r.pushEvent e).computerId = r.computerId := rfl

@[simp] theorem pushEvent_request : (r.pushEvent e).request = r.request := rfl

@[simp] theorem pushEvent_outcome : (r.pushEvent e).outcome = r.outcome := rfl

@[simp] theorem pushEvent_attempt : (r.pushEvent e).attempt = r.attempt := rfl

@[simp] theorem pushEvent_lease : (r.pushEvent e).lease = r.lease := rfl

@[simp] theorem pushEvent_events : (r.pushEvent e).events =
    lastN (maxEventsPerChannel - 1) r.events ++ [e] := rfl

end

/-- `lease && lease.expiresAt > now`. -/
def leaseLive (r : DurableDispatch) (now : ℤ) : Bool :=
  match r.lease with
  | some l => now < l.expiresAt
  | none => false

/-- An attempt was made, and another could repeat its effects. -/
def unrepeatable (r : DurableDispatch) : Bool :=
  0 < r.attempt && r.request.replayPolicy ≠ some .readOnly

def terminal (r : DurableDispatch) (error : String) (now : ℕ → ℤ) : DurableDispatch :=
  { r.pushEvent ⟨r.request.executionId, if error = "CANCELLED" then .cancelled else .failed,
      .obj [("error", .str error), ("attempt", .num r.attempt)], now 2⟩ with
    lease := none
    completedAt := some (now 1)
    outcome := some ⟨false, "", 0, 0, 0, some error⟩ }

end DurableDispatch

/-! The update closures. -/

def createUpdate (computerId : ComputerId) (request : WorkerExecutionRequest) :
    Option DurableDispatch → Except String DurableDispatch
  | some _ => .error "REQUEST_ALREADY_DISPATCHED"
  | none => .ok ⟨computerId, request, [], none, none, 0, false, none⟩

def claimUpdate (computerId : ComputerId) (leaseMs : ℤ) (now : ℕ → ℤ) (uuid : String) :
    Option DurableDispatch → Except String DurableDispatch
  | none => .error "UNKNOWN_DISPATCH"
  | some current =>
    if current.computerId ≠ computerId then .error "UNKNOWN_DISPATCH"
    else if current.outcome.isSome || current.leaseLive (now 0) then .error "RESOURCE_BUSY"
    else if current.unrepeatable then .ok (current.terminal "UNKNOWN_OUTCOME" now)
    else .ok { current.pushEvent ⟨current.request.executionId, .leaseAcquired,
          .obj [("attempt", .num (current.attempt + 1))], now 1⟩ with
        orphaned := false
        attempt := current.attempt + 1
        lease := some ⟨uuid, now 2 + leaseMs⟩ }

def reconcileUpdate (offline : List ComputerId) (now : ℕ → ℤ) :
    Option DurableDispatch → Except String DurableDispatch
  | none => .error "UNKNOWN_DISPATCH"
  | some current =>
    if current.outcome.isSome || current.leaseLive (now 0) then .ok current
    else if current.unrepeatable then .ok (current.terminal "UNKNOWN_OUTCOME" now)
    else if current.computerId ∈ offline then .ok { current with orphaned := true }
    else .ok current

def cancelUpdate (now : ℕ → ℤ) : Option DurableDispatch → Except String DurableDispatch
  | none => .error "UNKNOWN_DISPATCH"
  | some current =>
    if current.outcome.isSome then .ok current else .ok (current.terminal "CANCELLED" now)

def reassignUpdate (computerId : ComputerId) (now : ℕ → ℤ) :
    Option DurableDispatch → Except String DurableDispatch
  | none => .error "UNKNOWN_DISPATCH"
  | some current =>
    if current.outcome.isSome then .error "EXECUTION_TERMINAL"
    else if current.leaseLive (now 0) then .error "RESOURCE_BUSY"
    else if current.unrepeatable then .error "UNKNOWN_OUTCOME"
    else .ok { current.pushEvent ⟨current.request.executionId, .retry,
          .obj [("reason", .str "operator_reassignment"), ("from", .str current.computerId),
            ("to", .str computerId)], now 1⟩ with
        computerId := computerId
        lease := none
        orphaned := false }

def validate (current : Option DurableDispatch) (token : String) (now : ℤ) :
    Except String DurableDispatch :=
  match current with
  | none => .error "LEASE_LOST"
  | some r =>
    match r.lease with
    | none => .error "LEASE_LOST"
    | some l =>
      if token = "" ∨ l.token ≠ token ∨ l.expiresAt ≤ now then .error "LEASE_LOST" else .ok r

def renewUpdate (token : String) (leaseMs : ℤ) (now : ℕ → ℤ) (current : Option DurableDispatch) :
    Except String DurableDispatch := do
  let r ← validate current token (now 0)
  if r.outcome.isSome then .error "EXECUTION_TERMINAL"
  else return { r.pushEvent ⟨r.request.executionId, .leaseRenewed,
      .obj [("attempt", .num r.attempt)], now 1⟩ with lease := some ⟨token, now 2 + leaseMs⟩ }

def recordEventUpdate (event : WorkerExecutionEvent) (token : String) (now : ℕ → ℤ)
    (current : Option DurableDispatch) : Except String DurableDispatch := do
  let r ← validate current token (now 0)
  if r.outcome.isSome then .error "EXECUTION_TERMINAL"
  else if event.executionId ≠ r.request.executionId then .error "EXECUTION_MISMATCH"
  else return r.pushEvent event

/-- The holder of the lease that committed may repeat itself. -/
def repeated (current : Option DurableDispatch) (token : String) : Option DurableDispatch :=
  current.filter fun r =>
    r.outcome.isSome && token ≠ "" && r.lease.map Lease.token = some token

/-- Also returns the flag `committed`. -/
def commitUpdate (outcome : ExecutionOutcome) (token : String) (now : ℕ → ℤ)
    (current : Option DurableDispatch) : Except String (DurableDispatch × Bool) :=
  match repeated current token with
  | some r => .ok (r, false)
  | none => do
    let r ← validate current token (now 0)
    return ({ r with outcome := some outcome, completedAt := some (now 1) }, true)

/-- The `update` calls on a dispatch record, one for each place that makes one. -/
inductive RecordUpdate where
  | create (computerId : ComputerId) (request : WorkerExecutionRequest)
  | claim (computerId : ComputerId) (leaseMs : ℤ)
  | reconcile (offline : List ComputerId)
  | cancel
  | reassign (computerId : ComputerId)
  | renew (token : String) (leaseMs : ℤ)
  | recordEvent (event : WorkerExecutionEvent) (token : String)
  | commit (outcome : ExecutionOutcome) (token : String)

/-- The record written, and the flag that `commit` captures. -/
def RecordUpdate.apply (u : RecordUpdate) (now : ℕ → ℤ) (uuid : String)
    (current : Option DurableDispatch) : Except String (DurableDispatch × Bool) :=
  match u with
  | .create computerId request => (createUpdate computerId request current).map (·, false)
  | .claim computerId leaseMs => (claimUpdate computerId leaseMs now uuid current).map (·, false)
  | .reconcile offline => (reconcileUpdate offline now current).map (·, false)
  | .cancel => (cancelUpdate now current).map (·, false)
  | .reassign computerId => (reassignUpdate computerId now current).map (·, false)
  | .renew token leaseMs => (renewUpdate token leaseMs now current).map (·, false)
  | .recordEvent event token => (recordEventUpdate event token now current).map (·, false)
  | .commit outcome token => commitUpdate outcome token now current

/-! What an update that goes through can do, said once. -/

/-- `token` is that of the record's unexpired lease. -/
def Valid (r : DurableDispatch) (token : String) (now : ℤ) : Prop :=
  token ≠ "" ∧ ∃ l, r.lease = some l ∧ l.token = token ∧ now < l.expiresAt

inductive Change (now : ℕ → ℤ) (uuid : String) :
    RecordUpdate → Option DurableDispatch → DurableDispatch × Bool → Prop
  | created (computerId request) :
    Change now uuid (.create computerId request) none
      (⟨computerId, request, [], none, none, 0, false, none⟩, false)
  | issued (r computerId leaseMs) (owner : r.computerId = computerId) (pending : r.outcome = none)
      (free : r.leaseLive (now 0) = false) (safe : r.unrepeatable = false) :
    Change now uuid (.claim computerId leaseMs) (some r)
      ({ r.pushEvent ⟨r.request.executionId, .leaseAcquired,
          .obj [("attempt", .num (r.attempt + 1))], now 1⟩ with
        orphaned := false, attempt := r.attempt + 1
        lease := some ⟨uuid, now 2 + leaseMs⟩ }, false)
  | cancelled (r) (pending : r.outcome = none) :
    Change now uuid .cancel (some r) (r.terminal "CANCELLED" now, false)
  | abandoned (u r) (step : (∃ computerId leaseMs, u = .claim computerId leaseMs) ∨
        ∃ offline, u = .reconcile offline) (pending : r.outcome = none)
      (free : r.leaseLive (now 0) = false) (lost : r.unrepeatable = true) :
    Change now uuid u (some r) (r.terminal "UNKNOWN_OUTCOME" now, false)
  | unchanged (u r) (step : (∃ offline, u = .reconcile offline) ∨ u = .cancel ∧ r.outcome.isSome ∨
        ∃ outcome token, u = .commit outcome token ∧ r.outcome.isSome) :
    Change now uuid u (some r) (r, false)
  | marked (r offline) (pending : r.outcome = none) :
    Change now uuid (.reconcile offline) (some r) ({ r with orphaned := true }, false)
  | reassigned (r computerId) (pending : r.outcome = none) (free : r.leaseLive (now 0) = false)
      (safe : r.unrepeatable = false) :
    Change now uuid (.reassign computerId) (some r)
      ({ r.pushEvent ⟨r.request.executionId, .retry,
          .obj [("reason", .str "operator_reassignment"), ("from", .str r.computerId),
            ("to", .str computerId)], now 1⟩ with
        computerId := computerId, lease := none, orphaned := false }, false)
  | renewed (r token leaseMs) (valid : Valid r token (now 0)) (pending : r.outcome = none) :
    Change now uuid (.renew token leaseMs) (some r)
      ({ r.pushEvent ⟨r.request.executionId, .leaseRenewed, .obj [("attempt", .num r.attempt)],
        now 1⟩ with lease := some ⟨token, now 2 + leaseMs⟩ }, false)
  | recorded (r event token) (valid : Valid r token (now 0)) (pending : r.outcome = none)
      (same : event.executionId = r.request.executionId) :
    Change now uuid (.recordEvent event token) (some r) (r.pushEvent event, false)
  | committed (r outcome token) (valid : Valid r token (now 0)) (pending : r.outcome = none) :
    Change now uuid (.commit outcome token) (some r)
      ({ r with outcome := some outcome, completedAt := some (now 1) }, true)

variable {r : DurableDispatch}

theorem validate_ok {current : Option DurableDispatch} {token : String} {now : ℤ} :
    validate current token now = .ok r ↔
      current = some r ∧ Valid r token now := by
  cases current with
  | none => simp [validate]
  | some old =>
    cases hl : old.lease with
    | none =>
      simp only [validate, hl, reduceCtorEq, Option.some.injEq, false_iff, not_and]
      rintro rfl ⟨-, l, hl', -⟩
      rw [hl] at hl'
      cases hl'
    | some l =>
      simp only [validate, hl, Option.some.injEq]
      split_ifs with hv
      · simp only [false_iff, not_and]
        rintro rfl ⟨hne, l', hl', htok, hexp⟩
        cases hl.symm.trans hl'
        rcases hv with h | h | h
        · exact hne h
        · exact h htok
        · omega
      · simp only [not_or, not_not, not_le] at hv
        simp only [Except.ok.injEq]
        constructor
        · rintro rfl
          exact ⟨rfl, hv.1, l, hl, hv.2.1, hv.2.2⟩
        · exact And.left

theorem repeated_some {current : Option DurableDispatch} {token : String}
    (h : repeated current token = some r) : current = some r ∧ r.outcome.isSome := by
  simp only [repeated, Option.filter_eq_some_iff, Bool.and_eq_true] at h
  exact ⟨h.1, h.2.1.1⟩

/-- A valid lease on a record with an outcome is the one that committed it. -/
theorem repeated_none {current : Option DurableDispatch} {token : String} {now : ℤ}
    (h : repeated current token = none) (hv : validate current token now = .ok r) :
    r.outcome = none := by
  obtain ⟨rfl, hne, l, hl, htok, -⟩ := validate_ok.mp hv
  simpa [repeated, hl, htok, hne] using h

theorem RecordUpdate.apply_change {u : RecordUpdate} {now : ℕ → ℤ} {uuid : String}
    {current : Option DurableDispatch} {out : DurableDispatch × Bool}
    (h : u.apply now uuid current = .ok out) : Change now uuid u current out := by
  cases u with
  | create computerId request =>
    cases current with
    | some r => simp [apply, createUpdate] at h
    | none =>
      simp only [apply, createUpdate, except_map_eq_ok, Except.ok.injEq] at h
      obtain ⟨_, rfl, rfl⟩ := h
      exact .created computerId request
  | claim computerId leaseMs =>
    cases current with
    | none => simp [apply, claimUpdate] at h
    | some r =>
      simp only [apply, claimUpdate, except_map_eq_ok] at h
      split_ifs at h with howner hbusy hlost
      · simp at h
      · simp at h
      all_goals
        obtain ⟨_, hr, rfl⟩ := h
        cases hr
        simp only [Bool.or_eq_true, not_or, Bool.not_eq_true, Option.isSome_eq_false_iff,
          Option.isNone_iff_eq_none] at hbusy
      · exact .abandoned _ r (.inl ⟨computerId, leaseMs, rfl⟩) hbusy.1 hbusy.2 hlost
      · exact .issued r computerId leaseMs (not_not.mp howner) hbusy.1 hbusy.2 (by simpa using hlost)
  | reconcile offline =>
    cases current with
    | none => simp [apply, reconcileUpdate] at h
    | some r =>
      simp only [apply, reconcileUpdate, except_map_eq_ok] at h
      split_ifs at h with hdone hlost hoff
      all_goals
        obtain ⟨_, hr, rfl⟩ := h
        cases hr
      · exact .unchanged _ r (.inl ⟨offline, rfl⟩)
      all_goals
        simp only [Bool.or_eq_true, not_or, Bool.not_eq_true, Option.isSome_eq_false_iff,
          Option.isNone_iff_eq_none] at hdone
      · exact .abandoned _ r (.inr ⟨offline, rfl⟩) hdone.1 hdone.2 hlost
      · exact .marked r offline hdone.1
      · exact .unchanged _ r (.inl ⟨offline, rfl⟩)
  | cancel =>
    cases current with
    | none => simp [apply, cancelUpdate] at h
    | some r =>
      simp only [apply, cancelUpdate, except_map_eq_ok] at h
      split_ifs at h with hdone
      all_goals
        obtain ⟨_, hr, rfl⟩ := h
        cases hr
      · exact .unchanged _ r (.inr (.inl ⟨rfl, hdone⟩))
      · exact .cancelled r (by simpa using hdone)
  | reassign computerId =>
    cases current with
    | none => simp [apply, reassignUpdate] at h
    | some r =>
      simp only [apply, reassignUpdate, except_map_eq_ok] at h
      split_ifs at h with hdone hlive hlost
      · simp at h
      · simp at h
      · simp at h
      · obtain ⟨_, hr, rfl⟩ := h
        cases hr
        exact .reassigned r computerId (by simpa using hdone) (by simpa using hlive)
          (by simpa using hlost)
  | renew token leaseMs =>
    simp only [apply, renewUpdate, except_map_eq_ok, except_bind_eq_ok] at h
    obtain ⟨_, ⟨r, hv, hr⟩, rfl⟩ := h
    obtain ⟨rfl, hvalid⟩ := validate_ok.mp hv
    split_ifs at hr with hdone
    cases hr
    exact .renewed r token leaseMs hvalid (by simpa using hdone)
  | recordEvent event token =>
    simp only [apply, recordEventUpdate, except_map_eq_ok, except_bind_eq_ok] at h
    obtain ⟨_, ⟨r, hv, hr⟩, rfl⟩ := h
    obtain ⟨rfl, hvalid⟩ := validate_ok.mp hv
    split_ifs at hr with hdone hsame
    cases hr
    exact .recorded r event token hvalid (by simpa using hdone) (not_not.mp hsame)
  | commit outcome token =>
    simp only [apply, commitUpdate] at h
    split at h
    · rename_i r hr
      cases h
      obtain ⟨rfl, hdone⟩ := repeated_some hr
      exact .unchanged _ r (.inr (.inr ⟨outcome, token, rfl, hdone⟩))
    · rename_i hnone
      simp only [except_bind_eq_ok] at h
      obtain ⟨r, hv, hr⟩ := h
      have pending := repeated_none hnone hv
      obtain ⟨rfl, hvalid⟩ := validate_ok.mp hv
      cases hr
      exact .committed r outcome token hvalid pending

end Wazir.Dispatch
