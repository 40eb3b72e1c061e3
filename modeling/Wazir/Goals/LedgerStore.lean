import Wazir.Goals.Contracts

/-! The durable run ledger (`ledger/ledgerStore.ts`): what is stored for a run and what each
atomic `update` does to it. The envelope holds the ledger, its lease and the transitions of
the latest commit; older transitions have a key each. -/

namespace Wazir.Goals

def ledgerEnvelopeVersion : ℕ := 1

structure StoredLease where
  holderId : String
  epoch : ℕ
  expiresAt : Timestamp
  acquiredAt : Timestamp
  released : Bool
  deriving DecidableEq

structure TransitionBatch where
  revision : ℤ
  firstSeq : ℕ
  transitions : List TargetTransition
  deriving DecidableEq

structure RunEnvelope where
  v : ℕ
  ledger : GoalRunLedger
  lease : Option StoredLease
  maxEpoch : ℕ
  transitionSeq : ℕ
  lastBatch : Option TransitionBatch
  deriving DecidableEq

structure StoredTransition where
  seq : ℕ
  revision : ℤ
  transition : TargetTransition
  deriving DecidableEq

def toLease (runId : GoalRunId) (stored : StoredLease) : RunLease :=
  ⟨runId, stored.holderId, stored.epoch, stored.expiresAt⟩

def staleLease {α : Type} (runId : GoalRunId) (lease : RunLease) (message : String)
    (current : Option StoredLease := none) (retryable : Bool := false) : Except Thrown α :=
  fail .staleLease message
    ([("runId", .str runId), ("holderId", .str lease.holderId), ("epoch", .num lease.epoch)] ++
      match current with
      | none => []
      | some c => [("currentHolderId", .str c.holderId), ("currentEpoch", .num c.epoch),
          ("currentExpiresAt", .num c.expiresAt.1), ("released", .bool c.released)])
    retryable

/-- Fencing check: `lease` must be the run's current, unreleased, unexpired lease. -/
def assertCurrentLease (envelope : RunEnvelope) (lease : RunLease) (now : JsDate) :
    Except Thrown Unit :=
  let runId := envelope.ledger.runId
  if lease.runId ≠ runId then
    fail .staleLease ("lease is not for run '" ++ runId ++ "'")
      [("runId", .str runId), ("leaseRunId", .str lease.runId)]
  else match envelope.lease with
  | none =>
    staleLease runId lease ("run '" ++ runId ++ "' has no lease; acquire one before committing")
  | some current =>
    if current.epoch ≠ lease.epoch ∨ current.holderId ≠ lease.holderId then
      staleLease runId lease ("lease epoch " ++ toString lease.epoch ++ " held by '" ++
        lease.holderId ++ "' was superseded by epoch " ++ toString current.epoch ++ " ('" ++
        current.holderId ++ "')") (some current)
    else if current.released then
      staleLease runId lease ("lease epoch " ++ toString lease.epoch ++ " for run '" ++ runId ++
        "' was released") (some current)
    else if JsDate.reached current.expiresAt now then
      staleLease runId lease ("lease epoch " ++ toString lease.epoch ++ " for run '" ++ runId ++
        "' expired at " ++ toString current.expiresAt.1 ++ "; renew it before committing")
        (some current) true
    else .ok ()

variable {runId : GoalRunId} {lease : RunLease}

@[simp] theorem staleLease_eq_ok {α : Type} {message : String} {current : Option StoredLease}
    {retryable : Bool} {a : α} :
    staleLease runId lease message current retryable = .ok a ↔ False :=
  fail_eq_ok

theorem assertCurrentLease_ok {envelope : RunEnvelope} {now : JsDate}
    (h : assertCurrentLease envelope lease now = .ok ()) :
    lease.runId = envelope.ledger.runId ∧ ∃ held, envelope.lease = some held ∧
      held.epoch = lease.epoch ∧ held.holderId = lease.holderId ∧ held.released = false ∧
      JsDate.reached held.expiresAt now = false := by
  simp only [assertCurrentLease] at h
  split_ifs at h with hid
  · simp at h
  split at h
  · simp at h
  rename_i held hheld
  split_ifs at h with hfence hrel hexp
  · simp at h
  · simp at h
  · simp at h
  simp only [not_or, not_not] at hfence hid
  exact ⟨hid, held, hheld, hfence.1, hfence.2, by simpa using hrel, by simpa using hexp⟩

def ledgerConflict {α : Type} (runId : GoalRunId) (expected actual : ℤ) : Except Thrown α :=
  fail .ledgerConflict ("run '" ++ runId ++ "' is at ledger revision " ++ toString actual ++
    ", not " ++ toString expected ++ "; reload and retry")
    [("runId", .str runId), ("expectedRevision", .num expected), ("currentRevision", .num actual)]
    true

@[simp] theorem ledgerConflict_eq_ok {α : Type} {expected actual : ℤ} {a : α} :
    ledgerConflict runId expected actual = .ok a ↔ False := fail_eq_ok

/-- `IMMUTABLE_LEDGER_FIELDS`, each with whether the draft changed it. -/
def immutableLedgerFields (before draft : GoalRunLedger) : List (String × Bool) :=
  [("runId", draft.runId ≠ before.runId), ("graphId", draft.graphId ≠ before.graphId),
    ("graphRevision", draft.graphRevision ≠ before.graphRevision),
    ("graphDigest", draft.graphDigest ≠ before.graphDigest),
    ("createdBy", draft.createdBy ≠ before.createdBy),
    ("createdAt", draft.createdAt ≠ before.createdAt)]

def checkImmutable : List (String × Bool) → Except Thrown Unit
  | [] => .ok ()
  | (field, changed) :: rest =>
    if changed then fail .validation ("commit may not change ledger." ++ field)
    else checkImmutable rest

theorem checkImmutable_ok {fields : List (String × Bool)} (h : checkImmutable fields = .ok ()) :
    ∀ f ∈ fields, f.2 = false := by
  induction fields with
  | nil => simp
  | cons f rest ih =>
    obtain ⟨field, changed⟩ := f
    cases changed with
    | true => simp [checkImmutable] at h
    | false => simpa using ih (by simpa [checkImmutable] using h)

/-- The first loop of `validateTransitions`: the cursor maps each named target to the state
its transitions have led it to. -/
def followTransitions (runId : GoalRunId) (before after : GoalRunLedger) :
    ℕ → Table TargetId TargetStatus → List TargetTransition →
    Except Thrown (Table TargetId TargetStatus)
  | _, cursor, [] => .ok cursor
  | index, cursor, t :: rest =>
    let at_ := "transition[" ++ toString index ++ "] (" ++ t.targetId ++ ": " ++
      t.fromState.name ++ " -> " ++ t.toState.name ++ ")"
    if t.runId ≠ runId then fail .validation (at_ ++ " is not for run '" ++ runId ++ "'")
    else match before.targets.lookup t.targetId, after.targets.lookup t.targetId with
    | some was, some _ =>
      if t.actor = "" then fail .validation (at_ ++ " has no actor")
      else
        let source := (cursor.lookup t.targetId).getD was.status
        if t.fromState ≠ source then
          fail .validation (at_ ++ " starts from '" ++ t.fromState.name ++
            "' but the target is '" ++ source.name ++ "'") [("targetId", .str t.targetId)]
        else followTransitions runId before after (index + 1)
          (cursor.insert t.targetId t.toState) rest
    | _, _ => fail .validation (at_ ++ " names an unknown target")

/-- The second loop of `validateTransitions`: every target ends where the cursor says. -/
def checkReached (before after : GoalRunLedger) (cursor : Table TargetId TargetStatus) :
    List TargetId → Except Thrown Unit
  | [] => .ok ()
  | targetId :: rest =>
    match before.statusOf targetId, after.statusOf targetId with
    | some was, some now =>
      let reached := (cursor.lookup targetId).getD was
      if reached ≠ now then
        fail .validation ("target '" ++ targetId ++ "' changed " ++ was.name ++ " -> " ++
          now.name ++ " but the commit's transitions end at '" ++ reached.name ++ "'")
          [("targetId", .str targetId)]
      else checkReached before after cursor rest
    | _, _ => fail .validation ("commit may not add or remove target '" ++ targetId ++
        "'; targets are fixed by the pinned graph revision")

def validateTransitions (runId : GoalRunId) (before after : GoalRunLedger)
    (transitions : List TargetTransition) : Except Thrown Unit := do
  let cursor ← followTransitions runId before after 0 ∅ transitions
  checkReached before after cursor (before.targets.keys ++ after.targets.keys).dedup

/-! The read-modify-write steps: what each operation does to the envelope under `update`. -/

def runNotFound {α : Type} (runId : GoalRunId) : Except Thrown α :=
  fail .notFound ("run '" ++ runId ++ "' not found")

@[simp] theorem runNotFound_eq_ok {α : Type} {a : α} :
    runNotFound runId = .ok a ↔ False := fail_eq_ok

def createUpdate (runId : GoalRunId) (ledger : GoalRunLedger) :
    Option RunEnvelope → Except Thrown RunEnvelope
  | some _ => fail .duplicate ("run '" ++ runId ++ "' already exists") [("runId", .str runId)]
  | none => .ok ⟨ledgerEnvelopeVersion, ledger, none, 0, 0, none⟩

theorem createUpdate_ok {ledger : GoalRunLedger} {current : Option RunEnvelope} {e : RunEnvelope}
    (h : createUpdate runId ledger current = .ok e) :
    current = none ∧ e = ⟨ledgerEnvelopeVersion, ledger, none, 0, 0, none⟩ := by
  cases current with
  | none => simpa [createUpdate, eq_comm] using h
  | some old => simp [createUpdate] at h

def stamp (stampedAt : Timestamp) (t : TargetTransition) : TargetTransition :=
  { t with timestamp := some (t.timestamp.getD stampedAt) }

def commitUpdate (runId : GoalRunId) (expectedRevision : ℤ) (lease : RunLease)
    (mutate : GoalRunLedger → Except Thrown GoalRunLedger) (transitions : List TargetTransition)
    (now : JsDate) : Option RunEnvelope → Except Thrown RunEnvelope
  | none => runNotFound runId
  | some current => do
    assertCurrentLease current lease now
    if current.ledger.ledgerRevision ≠ expectedRevision then
      ledgerConflict runId expectedRevision current.ledger.ledgerRevision
    let draft ← mutate current.ledger
    checkImmutable (immutableLedgerFields current.ledger draft)
    validateTransitions runId current.ledger draft transitions
    let stampedAt ← now.toISOString
    let stamped := transitions.map (stamp stampedAt)
    return { current with
      ledger := { draft with ledgerRevision := expectedRevision + 1, updatedAt := stampedAt }
      transitionSeq := current.transitionSeq + stamped.length
      lastBatch := some ⟨expectedRevision + 1, current.transitionSeq + 1, stamped⟩ }

theorem commitUpdate_ok {expectedRevision : ℤ}
    {mutate : GoalRunLedger → Except Thrown GoalRunLedger} {transitions : List TargetTransition}
    {now : JsDate} {current : Option RunEnvelope} {e : RunEnvelope}
    (h : commitUpdate runId expectedRevision lease mutate transitions now current = .ok e) :
    ∃ old draft stampedAt, current = some old ∧ now = some stampedAt ∧
      assertCurrentLease old lease now = .ok () ∧ old.ledger.ledgerRevision = expectedRevision ∧
      mutate old.ledger = .ok draft ∧
      (∀ f ∈ immutableLedgerFields old.ledger draft, f.2 = false) ∧
      validateTransitions runId old.ledger draft transitions = .ok () ∧
      e = { old with
        ledger := { draft with ledgerRevision := expectedRevision + 1, updatedAt := stampedAt }
        transitionSeq := old.transitionSeq + transitions.length
        lastBatch := some ⟨expectedRevision + 1, old.transitionSeq + 1,
          transitions.map (stamp stampedAt)⟩ } := by
  cases current with
  | none => simp [commitUpdate] at h
  | some old =>
    simp only [commitUpdate, except_bind_eq_ok] at h
    obtain ⟨⟨⟩, hlease, h⟩ := h
    split_ifs at h with hrev
    · simp at h
    simp only [except_bind_eq_ok, JsDate.toISOString_eq_ok, pure, Except.pure, Except.ok.injEq,
      List.length_map] at h
    obtain ⟨draft, hmutate, ⟨⟩, himm, ⟨⟩, hvalid, stampedAt, hnow, rfl⟩ := h
    exact ⟨old, draft, stampedAt, rfl, hnow, hlease, not_not.mp hrev, hmutate,
      checkImmutable_ok himm, hvalid, rfl⟩

/-- Returns the new envelope and the lease that was acquired, if any. -/
def acquireUpdate (runId : GoalRunId) (holderId : String) (ttlMs : ℤ) (now : JsDate) :
    Option RunEnvelope → Except Thrown (RunEnvelope × Option StoredLease)
  | none => runNotFound runId
  | some current =>
    let liveElsewhere := match current.lease with
      | none => false
      | some held => !held.released &&
          (match now with | some n => n.1 < held.expiresAt.1 | none => false) &&
          held.holderId ≠ holderId
    if liveElsewhere then .ok (current, none)
    else do
      let epoch := max current.maxEpoch ((current.lease.map StoredLease.epoch).getD 0) + 1
      let acquiredAt ← now.toISOString
      let expiresAt ← (now.addMs ttlMs).toISOString
      let acquired : StoredLease := ⟨holderId, epoch, expiresAt, acquiredAt, false⟩
      return ({ current with lease := some acquired, maxEpoch := epoch }, some acquired)

theorem acquireUpdate_ok {holderId : String} {ttlMs : ℤ} {now : JsDate}
    {current : Option RunEnvelope} {r : RunEnvelope × Option StoredLease}
    (h : acquireUpdate runId holderId ttlMs now current = .ok r) :
    ∃ old, current = some old ∧ (r = (old, none) ∨ ∃ acquired,
      acquired.epoch = max old.maxEpoch ((old.lease.map StoredLease.epoch).getD 0) + 1 ∧
      acquired.holderId = holderId ∧ acquired.released = false ∧
      r = ({ old with lease := some acquired, maxEpoch := acquired.epoch }, some acquired)) := by
  cases current with
  | none => simp [acquireUpdate] at h
  | some old =>
    refine ⟨old, rfl, ?_⟩
    simp only [acquireUpdate] at h
    split_ifs at h
    · exact .inl (by simpa [eq_comm] using h)
    simp only [except_bind_eq_ok, JsDate.toISOString_eq_ok, pure, Except.pure,
      Except.ok.injEq] at h
    obtain ⟨acquiredAt, -, expiresAt, -, rfl⟩ := h
    exact .inr ⟨_, rfl, rfl, rfl, rfl⟩

def renewUpdate (lease : RunLease) (ttlMs : ℤ) (now : JsDate) :
    Option RunEnvelope → Except Thrown (RunEnvelope × Option StoredLease)
  | none => runNotFound lease.runId
  | some current =>
    match current.lease with
    | none =>
      staleLease lease.runId lease ("cannot renew lease epoch " ++ toString lease.epoch ++
        ": superseded by epoch none")
    | some held =>
      if held.epoch ≠ lease.epoch ∨ held.holderId ≠ lease.holderId then
        staleLease lease.runId lease ("cannot renew lease epoch " ++ toString lease.epoch ++
          ": superseded by epoch " ++ toString held.epoch) (some held)
      else if held.released then
        staleLease lease.runId lease ("cannot renew released lease epoch " ++
          toString lease.epoch) (some held)
      else do
        let expiresAt ← (now.addMs ttlMs).toISOString
        let renewed := { held with expiresAt := expiresAt }
        return ({ current with lease := some renewed }, some renewed)

theorem renewUpdate_ok {ttlMs : ℤ} {now : JsDate} {current : Option RunEnvelope}
    {r : RunEnvelope × Option StoredLease} (h : renewUpdate lease ttlMs now current = .ok r) :
    ∃ old held expiresAt, current = some old ∧ old.lease = some held ∧
      held.epoch = lease.epoch ∧ held.holderId = lease.holderId ∧ held.released = false ∧
      r = ({ old with lease := some { held with expiresAt := expiresAt } },
        some { held with expiresAt := expiresAt }) := by
  cases current with
  | none => simp [renewUpdate] at h
  | some old =>
    simp only [renewUpdate] at h
    split at h
    · simp at h
    rename_i held hheld
    split_ifs at h with hfence hrel
    · simp at h
    · simp at h
    simp only [except_bind_eq_ok, JsDate.toISOString_eq_ok, pure, Except.pure,
      Except.ok.injEq] at h
    obtain ⟨expiresAt, -, rfl⟩ := h
    simp only [not_or, not_not] at hfence
    exact ⟨old, held, expiresAt, rfl, hheld, hfence.1, hfence.2, by simpa using hrel, rfl⟩

/-- `none` stands for the value `undefined` that is written back when there is no run. -/
def releaseUpdate (lease : RunLease) (now : JsDate) :
    Option RunEnvelope → Except Thrown (Option RunEnvelope)
  | none => .ok none
  | some current =>
    match current.lease with
    | none => .ok (some current)
    | some held =>
      if held.epoch ≠ lease.epoch ∨ held.holderId ≠ lease.holderId ∨ held.released then
        .ok (some current)
      else do
        let expiresAt ← now.toISOString
        return some { current with lease := some { held with released := true, expiresAt := expiresAt } }

theorem releaseUpdate_ok {now : JsDate} {current e : Option RunEnvelope}
    (h : releaseUpdate lease now current = .ok e) :
    e = current ∨ ∃ old held expiresAt, current = some old ∧ old.lease = some held ∧
      held.epoch = lease.epoch ∧ held.holderId = lease.holderId ∧ held.released = false ∧
      e = some { old with
        lease := some { held with released := true, expiresAt := expiresAt } } := by
  cases current with
  | none => exact .inl (by simpa [releaseUpdate, eq_comm] using h)
  | some old =>
    simp only [releaseUpdate] at h
    split at h
    · exact .inl (by simpa [eq_comm] using h)
    rename_i held hheld
    split_ifs at h with hfence
    · exact .inl (by simpa [eq_comm] using h)
    simp only [except_bind_eq_ok, JsDate.toISOString_eq_ok, pure, Except.pure,
      Except.ok.injEq] at h
    obtain ⟨expiresAt, -, rfl⟩ := h
    simp only [not_or, not_not, Bool.not_eq_true] at hfence
    exact .inr ⟨old, held, expiresAt, rfl, hheld, hfence.1, hfence.2.1, hfence.2.2, rfl⟩

/-- The `update` calls on a run's envelope, one for each place that makes one. -/
inductive RunUpdate where
  | create (ledger : GoalRunLedger)
  | commit (expectedRevision : ℤ) (lease : RunLease)
      (mutate : GoalRunLedger → Except Thrown GoalRunLedger) (transitions : List TargetTransition)
  | acquire (holderId : String) (ttlMs : ℤ)
  | renew (lease : RunLease) (ttlMs : ℤ)
  | release (lease : RunLease)

/-- The envelope written, and the lease the closure captured. -/
def RunUpdate.apply (runId : GoalRunId) (u : RunUpdate) (now : JsDate)
    (current : Option RunEnvelope) : Except Thrown (Option RunEnvelope × Option StoredLease) :=
  match u with
  | .create ledger => (createUpdate runId ledger current).map fun e => (some e, none)
  | .commit expectedRevision lease mutate transitions =>
    (commitUpdate runId expectedRevision lease mutate transitions now current).map
      fun e => (some e, none)
  | .acquire holderId ttlMs =>
    (acquireUpdate runId holderId ttlMs now current).map fun r => (some r.1, r.2)
  | .renew lease ttlMs => (renewUpdate lease ttlMs now current).map fun r => (some r.1, r.2)
  | .release lease => (releaseUpdate lease now current).map fun e => (e, none)

theorem RunUpdate.apply_keeps {u : RunUpdate} {now : JsDate} {old : RunEnvelope}
    {out : Option RunEnvelope × Option StoredLease} (h : u.apply runId now (some old) = .ok out) :
    ∃ e, out.1 = some e := by
  cases u with
  | release lease =>
    simp only [RunUpdate.apply, except_map_eq_ok] at h
    obtain ⟨e, he, rfl⟩ := h
    rcases releaseUpdate_ok he with rfl | ⟨_, _, _, _, _, _, _, _, rfl⟩ <;> exact ⟨_, rfl⟩
  | _ =>
    simp only [RunUpdate.apply, except_map_eq_ok] at h
    obtain ⟨e, -, rfl⟩ := h
    exact ⟨_, rfl⟩

end Wazir.Goals
