import Wazir.Async.Trace
import Wazir.Goals.Contracts

/-! Effects run once per idempotency key (`once` and `reconcileEffect` of
`ledger/ledgerStore.ts`): a durable record per key, claimed before the body runs and closed
after it, and in each ledger instance a map of the runs it has in progress. -/

namespace Wazir.Goals

open Wazir.Async

structure EffectOwner where
  instanceId : String
  pid : ℕ
  host : String
  deriving DecidableEq

def EffectOwner.json (o : EffectOwner) : Json :=
  .obj [("instanceId", .str o.instanceId), ("pid", .num o.pid), ("host", .str o.host)]

inductive EffectState where
  | inFlight | done | failed | released
  deriving DecidableEq

def EffectState.name : EffectState → String
  | .inFlight => "in_flight"
  | .done => "done"
  | .failed => "failed"
  | .released => "released"

structure Reconciliation where
  applied : Bool
  actor : String
  reconciledAt : Timestamp

/-- `resultJson` is the value the JSON text stands for, `none` for `undefined`. -/
structure IdempotencyRecord where
  key : IdempotencyKey
  state : EffectState
  owner : EffectOwner
  startedAt : Timestamp
  finishedAt : Option Timestamp := none
  resultJson : Option Json := none
  error : Option GoalStudioFailure := none
  runs : ℕ
  reconciliation : Option Reconciliation := none

inductive EffectResolution where
  | applied (result : Option Json)
  | notApplied

/-! The read-modify-write steps on a key's record. -/

/-- Returns what is written and whether the caller claimed the key. -/
def claimUpdate (key : IdempotencyKey) (owner : EffectOwner) (now : JsDate)
    (current : Option IdempotencyRecord) : Except Thrown (Option IdempotencyRecord × Bool) :=
  match current with
  | some seen =>
    if seen.state ≠ .released then .ok (some seen, false)
    else do
      let startedAt ← now.toISOString
      return (some { key := key, state := .inFlight, owner := owner, startedAt := startedAt
                     runs := seen.runs + 1 }, true)
  | none => do
    let startedAt ← now.toISOString
    return (some { key := key, state := .inFlight, owner := owner, startedAt := startedAt
                   runs := 1 }, true)

theorem claimUpdate_ok {key : IdempotencyKey} {owner : EffectOwner} {now : JsDate}
    {current : Option IdempotencyRecord} {out : Option IdempotencyRecord × Bool}
    (h : claimUpdate key owner now current = .ok out) :
    out = (current, false) ∨ ((∀ seen, current = some seen → seen.state = .released) ∧
      ∃ r, r.state = .inFlight ∧ out = (some r, true)) := by
  cases current with
  | none =>
    simp only [claimUpdate, except_bind_eq_ok, pure, Except.pure, Except.ok.injEq] at h
    obtain ⟨startedAt, -, rfl⟩ := h
    exact .inr ⟨by simp, _, rfl, rfl⟩
  | some seen =>
    simp only [claimUpdate] at h
    split_ifs at h with hs
    · exact .inl (Except.ok.inj h).symm
    simp only [except_bind_eq_ok, pure, Except.pure, Except.ok.injEq] at h
    obtain ⟨startedAt, -, rfl⟩ := h
    exact .inr ⟨by simpa using hs, _, rfl, rfl⟩

def recordUpdate (key : IdempotencyKey) (owner : EffectOwner) (value : Option Json) (now : JsDate)
    (current : Option IdempotencyRecord) : Except Thrown IdempotencyRecord :=
  let reconciled (details : List (String × Json)) : Except Thrown IdempotencyRecord :=
    fail .duplicate ("effect '" ++ key ++
      "' was reconciled by someone else while it ran; its result was not recorded")
      (("key", .str key) :: details)
  match current with
  | none => reconciled []
  | some record =>
    if record.state ≠ .inFlight ∨ record.owner.instanceId ≠ owner.instanceId then
      reconciled [("state", .str record.state.name)]
    else do
      let finishedAt ← now.toISOString
      return { record with
        state := .done, finishedAt := some finishedAt
        resultJson := value.orElse fun _ => record.resultJson }

theorem recordUpdate_ok {key : IdempotencyKey} {owner : EffectOwner} {value : Option Json}
    {now : JsDate} {current : Option IdempotencyRecord} {r : IdempotencyRecord}
    (h : recordUpdate key owner value now current = .ok r) : r.state = .done := by
  cases current with
  | none => simp [recordUpdate] at h
  | some record =>
    simp only [recordUpdate] at h
    split_ifs at h
    · simp at h
    simp only [except_bind_eq_ok, pure, Except.pure, Except.ok.injEq] at h
    obtain ⟨finishedAt, -, rfl⟩ := h
    rfl

/-- A thrown `GoalStudioFailure` keeps its code, any other error becomes `EXECUTION_FAILED`. -/
def recordedError : Thrown → GoalStudioFailure
  | .failure f => f
  | .error message => ⟨.executionFailed, message, false, []⟩

def recordFailureUpdate (owner : EffectOwner) (error : Thrown) (now : JsDate)
    (current : Option IdempotencyRecord) : Except Thrown (Option IdempotencyRecord) :=
  match current with
  | none => .ok none
  | some record =>
    if record.state ≠ .inFlight ∨ record.owner.instanceId ≠ owner.instanceId then .ok (some record)
    else do
      let finishedAt ← now.toISOString
      return some { record with
        state := if (recordedError error).retryable then .released else .failed
        finishedAt := some finishedAt, error := some (recordedError error) }

theorem recordFailureUpdate_ok {owner : EffectOwner} {error : Thrown} {now : JsDate}
    {current out : Option IdempotencyRecord}
    (h : recordFailureUpdate owner error now current = .ok out) : out = current ∨
    ∃ r, out = some r ∧
      r.state = if (recordedError error).retryable then .released else .failed := by
  cases current with
  | none => exact .inl (Except.ok.inj h).symm
  | some record =>
    simp only [recordFailureUpdate] at h
    split_ifs at h
    · exact .inl (Except.ok.inj h).symm
    · simp only [except_bind_eq_ok, pure, Except.pure, Except.ok.injEq] at h
      obtain ⟨finishedAt, -, rfl⟩ := h
      exact .inr ⟨_, rfl, by simp_all⟩
    · simp only [except_bind_eq_ok, pure, Except.pure, Except.ok.injEq] at h
      obtain ⟨finishedAt, -, rfl⟩ := h
      exact .inr ⟨_, rfl, by simp_all⟩

def reconcileUpdate (key : IdempotencyKey) (resolution : EffectResolution) (actor : String)
    (now : JsDate) (current : Option IdempotencyRecord) : Except Thrown IdempotencyRecord :=
  match current with
  | none => fail .notFound ("no effect recorded for '" ++ key ++ "'")
  | some record =>
    if record.state ≠ .inFlight then
      fail .validation ("effect '" ++ key ++ "' is " ++ record.state.name ++
        "; only an in-flight effect can be reconciled")
        [("key", .str key), ("state", .str record.state.name)]
    else do
      let reconciledAt ← now.toISOString
      match resolution with
      | .applied result =>
        return { record with
          state := .done, finishedAt := some reconciledAt
          reconciliation := some ⟨true, actor, reconciledAt⟩
          resultJson := result.orElse fun _ => record.resultJson }
      | .notApplied =>
        return { record with
          state := .released, finishedAt := some reconciledAt
          reconciliation := some ⟨false, actor, reconciledAt⟩ }

def EffectResolution.isApplied : EffectResolution → Bool
  | .applied _ => true
  | .notApplied => false

theorem reconcileUpdate_ok {key : IdempotencyKey} {resolution : EffectResolution} {actor : String}
    {now : JsDate} {current : Option IdempotencyRecord} {r : IdempotencyRecord}
    (h : reconcileUpdate key resolution actor now current = .ok r) :
    (∃ old, current = some old ∧ old.state = .inFlight) ∧
      r.state = if resolution.isApplied then .done else .released := by
  cases current with
  | none => simp [reconcileUpdate] at h
  | some record =>
    simp only [reconcileUpdate] at h
    split_ifs at h with hs
    · simp at h
    refine ⟨⟨record, rfl, not_not.mp hs⟩, ?_⟩
    cases resolution <;>
    · simp only [except_bind_eq_ok, pure, Except.pure, Except.ok.injEq] at h
      obtain ⟨reconciledAt, -, rfl⟩ := h
      rfl

inductive EffectUpdate where
  | claim (owner : EffectOwner)
  | record (owner : EffectOwner) (value : Option Json)
  | recordFailure (owner : EffectOwner) (error : Thrown)
  | reconcile (resolution : EffectResolution) (actor : String)

/-- The record written, and `claimed`. -/
def EffectUpdate.apply (key : IdempotencyKey) (u : EffectUpdate) (now : JsDate)
    (current : Option IdempotencyRecord) : Except Thrown (Option IdempotencyRecord × Bool) :=
  match u with
  | .claim owner => claimUpdate key owner now current
  | .record owner value => (recordUpdate key owner value now current).map fun r => (some r, false)
  | .recordFailure owner error => (recordFailureUpdate owner error now current).map fun r => (r, false)
  | .reconcile resolution actor =>
    (reconcileUpdate key resolution actor now current).map fun r => (some r, false)

/-- The record is there after an `update` that found or made one. -/
theorem EffectUpdate.apply_none {key : IdempotencyKey} {u : EffectUpdate} {now : JsDate}
    {current : Option IdempotencyRecord} {out : Option IdempotencyRecord × Bool}
    (h : u.apply key now current = .ok out) (hout : out.1 = none) : current = none := by
  cases u with
  | claim owner =>
    rcases claimUpdate_ok h with rfl | ⟨-, r, -, rfl⟩
    · exact hout
    · cases hout
  | recordFailure owner error =>
    simp only [EffectUpdate.apply, except_map_eq_ok] at h
    obtain ⟨r, hr, rfl⟩ := h
    rcases recordFailureUpdate_ok hr with rfl | ⟨r', rfl, -⟩
    · exact hout
    · cases hout
  | record owner value =>
    simp only [EffectUpdate.apply, except_map_eq_ok] at h
    obtain ⟨r, -, rfl⟩ := h
    cases hout
  | reconcile resolution actor =>
    simp only [EffectUpdate.apply, except_map_eq_ok] at h
    obtain ⟨r, -, rfl⟩ := h
    cases hout

/-! The commands. -/

/-- A ledger instance, and the process it lives in. -/
structure LedgerInstance where
  process : ℕ
  owner : EffectOwner
  hasCustomProcessAlive : Bool
  deriving DecidableEq

/-- `inflight` maps a key of an instance to the promise of its run; `settled` holds the
outcomes of the promises that have one. -/
structure EffectShared where
  records : Table IdempotencyKey IdempotencyRecord
  inflight : Table (LedgerInstance × IdempotencyKey) ℕ
  promises : ℕ
  settled : Table ℕ (Except Thrown (Option Json))

inductive EffectOp where
  | getInflight (inst : LedgerInstance) (key : IdempotencyKey)
  | setInflight (inst : LedgerInstance) (key : IdempotencyKey)
  | deleteInflight (inst : LedgerInstance) (key : IdempotencyKey)
  | awaitRun (promise : ℕ)
  | settleRun (promise : ℕ) (outcome : Except Thrown (Option Json))
  | getRecord (key : IdempotencyKey)
  | updateRecord (key : IdempotencyKey) (u : EffectUpdate)
  | effectStart (key : IdempotencyKey)
  | effectEnd (key : IdempotencyKey)
  | isProcessAlive (pid : ℕ)

abbrev EffectRes : EffectOp → Type
  | .getInflight _ _ => Option ℕ
  | .setInflight _ _ => ℕ
  | .deleteInflight _ _ => Unit
  | .awaitRun _ => Except Thrown (Option Json)
  | .settleRun _ _ => Unit
  | .getRecord _ => Except Thrown (Option IdempotencyRecord)
  | .updateRecord _ _ => Except Thrown (Option IdempotencyRecord × Bool)
  | .effectStart _ => Unit
  | .effectEnd _ => Except Thrown (Option Json)
  | .isProcessAlive _ => Bool

/-- `outcome` is what a body that ends now returns or throws. -/
structure EffectInput where
  now : JsDate
  fault : Option Thrown
  outcome : Except Thrown (Option Json)
  alive : Bool

def EffectShared.setRecord (s : EffectShared) (key : IdempotencyKey) :
    Option IdempotencyRecord → EffectShared
  | some r => { s with records := s.records.insert key r }
  | none => s

/-- An awaited promise that has not settled blocks; nothing else does. -/
def effectExec (op : EffectOp) (inp : EffectInput) (s : EffectShared) :
    Option (EffectRes op × EffectShared) :=
  match op with
  | .getInflight inst key => some (s.inflight.lookup (inst, key), s)
  | .setInflight inst key =>
    some (s.promises, { s with
      inflight := s.inflight.insert (inst, key) s.promises, promises := s.promises + 1 })
  | .deleteInflight inst key => some ((), { s with inflight := s.inflight.erase (inst, key) })
  | .awaitRun promise => (s.settled.lookup promise).map fun outcome => (outcome, s)
  | .settleRun promise outcome =>
    some ((), { s with settled := s.settled.insert promise outcome })
  | .getRecord key =>
    match inp.fault with
    | some e => some (.error e, s)
    | none => some (.ok (s.records.lookup key), s)
  | .updateRecord key u =>
    match inp.fault with
    | some e => some (.error e, s)
    | none =>
      match u.apply key inp.now (s.records.lookup key) with
      | .error e => some (.error e, s)
      | .ok out => some (.ok out, s.setRecord key out.1)
  | .effectStart _ => some ((), s)
  | .effectEnd _ => some (inp.outcome, s)
  | .isProcessAlive _ => some (inp.alive, s)

theorem effectExec_update {key : IdempotencyKey} {u : EffectUpdate} {inp : EffectInput}
    {s s' : EffectShared} {r : EffectRes (.updateRecord key u)}
    (h : effectExec (.updateRecord key u) inp s = some (r, s')) :
    (∃ e, r = .error e ∧ s' = s) ∨
    ∃ out, u.apply key inp.now (s.records.lookup key) = .ok out ∧ r = .ok out ∧
      s'.records.lookup key = out.1 ∧
      ∀ k, k ≠ key → s'.records.lookup k = s.records.lookup k := by
  simp only [effectExec] at h
  split at h
  · cases h
    exact .inl ⟨_, rfl, rfl⟩
  split at h
  · cases h
    exact .inl ⟨_, rfl, rfl⟩
  rename_i out hout
  cases h
  refine .inr ⟨out, hout, rfl, ?_, fun k hk => ?_⟩
  · cases ho : out.1 with
    | some r => simp [EffectShared.setRecord]
    | none => exact EffectUpdate.apply_none hout ho
  · cases ho : out.1 with
    | some r => simp [EffectShared.setRecord, AList.lookup_insert_ne hk]
    | none => rfl

theorem effectExec_records {op : EffectOp} {inp : EffectInput} {s s' : EffectShared}
    {r : EffectRes op} (h : effectExec op inp s = some (r, s'))
    (hop : ∀ key u, op ≠ .updateRecord key u) : s'.records = s.records := by
  cases op with
  | updateRecord key u => exact absurd rfl (hop key u)
  | getRecord key =>
    simp only [effectExec] at h
    split at h <;> cases h <;> rfl
  | awaitRun promise =>
    obtain ⟨out, -, ho⟩ := Option.map_eq_some_iff.mp h
    cases ho
    rfl
  | _ =>
    cases h
    rfl

/-! The procedures. -/

abbrev EffectProg := Prog EffectOp EffectRes Thrown

namespace GoalLedgerStore

def effectStatus (key : IdempotencyKey) : EffectProg (Option IdempotencyRecord) :=
  .call (.getRecord key) .resume

def updateEffect (key : IdempotencyKey) (u : EffectUpdate) :
    EffectProg (Option IdempotencyRecord × Bool) :=
  .call (.updateRecord key u) .resume

/-- `none` is `'unknown'`: the owner is on another host. -/
def ownerAlive (inst : LedgerInstance) (owner : EffectOwner) : EffectProg (Option Bool) :=
  if owner.instanceId = inst.owner.instanceId then return some false
  else if owner.host ≠ inst.owner.host then return none
  else if !inst.hasCustomProcessAlive && owner.pid = inst.owner.pid then return some true
  else .call (.isProcessAlive owner.pid) fun alive => .ret (some alive)

/-- The error of a `replay` that finds the key in flight. -/
def inFlightError (record : IdempotencyRecord) (alive : Option Bool) : Thrown :=
  .failure ⟨.duplicate,
    if alive = some false then
      "effect '" ++ record.key ++ "' was started by process " ++ toString record.owner.pid ++ " on " ++
        record.owner.host ++ ", which is gone, and has no recorded outcome; " ++
        "reconcile it (reconcileEffect) from evidence before anything re-runs it"
    else
      "effect '" ++ record.key ++ "' is in flight in " ++ record.owner.host ++ ":" ++
        toString record.owner.pid ++ " with no recorded outcome yet",
    alive ≠ some false,
    [("key", .str record.key), ("state", .str "in_flight"), ("needsReconciliation", .bool true),
      ("ownerAlive", (alive.map Json.bool).getD (.str "unknown")), ("owner", record.owner.json),
      ("startedAt", .num record.startedAt.1)]⟩

def replay (inst : LedgerInstance) (record : IdempotencyRecord) : EffectProg (Option Json) :=
  if record.state = .done then return record.resultJson
  else if record.state = .failed then
    let error := record.error.getD ⟨.internal, "effect failed", false, []⟩
    .raise (.failure { error with
      retryable := false
      details := error.details ++ [("key", .str record.key), ("replayed", .bool true)] })
  else do
    let alive ← ownerAlive inst record.owner
    .raise (inFlightError record alive)

def recordFailure (inst : LedgerInstance) (key : IdempotencyKey) (error : Thrown) :
    EffectProg Unit := do
  let _ ← updateEffect key (.recordFailure inst.owner error)
  return

/-- The body, between its claim and its record. -/
def runBody (inst : LedgerInstance) (key : IdempotencyKey) : EffectProg (Option Json) :=
  .call (.effectStart key) fun _ => .call (.effectEnd key) fun
    | .error error => do
      recordFailure inst key error
      .raise error
    | .ok value => do
      let _ ← updateEffect key (.record inst.owner value)
      return value

/-- The promise `run` of `once`, with `replayed`. -/
def run (inst : LedgerInstance) (key : IdempotencyKey) : EffectProg (Option Json × Bool) := do
  let r ← updateEffect key (.claim inst.owner)
  if r.2 then
    let value ← runBody inst key
    return (value, false)
  else
    match r.1 with
    | some seen =>
      let value ← replay inst seen
      return (value, true)
    | none => return (none, true)

def startRun (inst : LedgerInstance) (key : IdempotencyKey) : EffectProg (Option Json × Bool) :=
  .call (.setInflight inst key) fun promise =>
    (run inst key).settle fun outcome =>
      .call (.settleRun promise (outcome.map Prod.fst)) fun _ =>
        -- `finally`: whoever's promise the map holds by now
        .call (.deleteInflight inst key) fun _ => .resume outcome

def once (inst : LedgerInstance) (key : IdempotencyKey) : EffectProg (Option Json × Bool) :=
  if key = "" then .resume (fail .validation "once requires an idempotency key")
  else .call (.getInflight inst key) fun
    | some promise => .call (.awaitRun promise) fun outcome => do
      let result ← .resume outcome
      return (result, true)
    | none => do
      match ← effectStatus key with
      | none => startRun inst key
      | some existing =>
        if existing.state ≠ .released then
          let value ← replay inst existing
          return (value, true)
        else startRun inst key

def reconcileEffect (inst : LedgerInstance) (key : IdempotencyKey) (resolution : EffectResolution)
    (actor : String) : EffectProg (Option IdempotencyRecord) :=
  if actor = "" then .resume (fail .validation "reconcileEffect requires an actor")
  else .call (.getInflight inst key) fun
    | some _ => .resume (fail .duplicate ("effect '" ++ key ++
        "' is running in this process; it cannot be reconciled") [] true)
    | none => do
      let reconciled : EffectProg (Option IdempotencyRecord) := do
        let r ← updateEffect key (.reconcile resolution actor)
        return r.1
      match ← effectStatus key with
      | none => reconciled
      | some status =>
        if status.state = .inFlight then
          if (← ownerAlive inst status.owner) = some true then
            .resume (fail .duplicate ("effect '" ++ key ++ "' is still owned by live process " ++
              toString status.owner.pid) [("key", .str key), ("owner", status.owner.json)] true)
          else reconciled
        else reconciled

end GoalLedgerStore

/-! The instances under any number of callers. -/

inductive EffectCall where
  | once (key : IdempotencyKey)
  | reconcileEffect (key : IdempotencyKey) (resolution : EffectResolution) (actor : String)

inductive EffectReply where
  | result (value : Option Json) (replayed : Bool)
  | record (record : Option IdempotencyRecord)

structure EffectRequest where
  inst : LedgerInstance
  call : EffectCall

def EffectRequest.body (r : EffectRequest) : EffectProg EffectReply :=
  match r.call with
  | .once key => (fun out => EffectReply.result out.1 out.2) <$> GoalLedgerStore.once r.inst key
  | .reconcileEffect key resolution actor =>
    EffectReply.record <$> GoalLedgerStore.reconcileEffect r.inst key resolution actor

/-- The map of a crashed process is gone with it; no later call reads it. -/
def effectSystem :
    System EffectOp EffectRes Thrown EffectReply EffectRequest ℕ EffectInput EffectShared where
  body := EffectRequest.body
  proc r := r.inst.process
  exec := effectExec
  admits _ s := some s
  crash _ s := s

abbrev EffectEntry := Entry EffectOp EffectRes EffectRequest EffectInput EffectShared
abbrev EffectHist := Hist EffectOp EffectRes EffectRequest ℕ EffectInput EffectShared
abbrev EffectConfig :=
  Config EffectOp EffectRes Thrown EffectReply EffectRequest ℕ EffectInput EffectShared

def noEffects : EffectShared := ⟨∅, ∅, 0, ∅⟩

end Wazir.Goals
