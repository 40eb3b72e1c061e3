import Wazir.Resources.Accounts

/-! The resource ledger (`resources/ledger.ts`): what its statements and transactions do to the
database. The audit trail, observations and calibration are left out; no sum reads them. -/

namespace Wazir.Resources

inductive UsageSource where
  | providerReported
  | estimated
  | conservative
  deriving DecidableEq

structure UsageRow where
  requestId : String
  accountId : String
  modelId : String
  taskId : Option String
  agent : Option String
  workload : Option WorkloadClass
  inputTokens : ℚ
  outputTokens : ℚ
  cachedInputTokens : ℚ
  reasoningTokens : ℚ
  requests : ℚ
  costUsd : ℚ
  source : UsageSource
  time : ℤ
  durationMs : Option ℤ
  isLocal : Bool

inductive ReservationStatus where
  | active
  | settled
  | released
  | expired
  deriving DecidableEq

structure ReservationRow where
  id : String
  requestId : String
  accountId : String
  modelId : String
  taskId : Option String
  workload : WorkloadClass
  estInputTokens : ℚ
  estOutputTokens : ℚ
  estRequests : ℚ
  estCostUsd : ℚ
  status : ReservationStatus
  createdAt : ℤ
  leaseExpiresAt : ℤ
  isLocal : Bool

inductive AccountHealth where
  | ok
  | cooldown
  | authBlocked
  | quotaBlocked
  deriving DecidableEq

structure HealthRow where
  health : AccountHealth
  untilAt : Option ℤ
  reason : String

/-- The tables; `stop` is the reason of the emergency stop. -/
structure Ledger where
  reservations : List ReservationRow
  usage : List UsageRow
  health : List (String × HealthRow)
  stop : Option String

def emptyLedger : Ledger := ⟨[], [], [], none⟩

/-! The columns that a unit sums. -/

def UsageRow.units (row : UsageRow) : LimitUnit → ℚ
  | .tokens => row.inputTokens + row.outputTokens
  | .inputTokens => row.inputTokens
  | .outputTokens => row.outputTokens
  | .requests => row.requests
  | .costUsd => row.costUsd

def ReservationRow.units (row : ReservationRow) : LimitUnit → ℚ
  | .tokens => row.estInputTokens + row.estOutputTokens
  | .inputTokens => row.estInputTokens
  | .outputTokens => row.estOutputTokens
  | .requests => row.estRequests
  | .costUsd => row.estCostUsd

/-- `status = 'active' AND lease_expires_at > now` -/
def ReservationRow.live (r : ReservationRow) (now : ℤ) : Bool :=
  r.status = .active && now < r.leaseExpiresAt

/-- `status = 'active' AND lease_expires_at <= now` -/
def ReservationRow.lapsed (r : ReservationRow) (now : ℤ) : Bool :=
  r.status = .active && r.leaseExpiresAt ≤ now

/-- `at >= since AND at < until` -/
def UsageRow.within (row : UsageRow) (since : ℤ) (until' : Option ℤ) : Bool :=
  since ≤ row.time && until'.all (row.time < ·)

namespace Ledger

/-! Sums. -/

def usedSince (l : Ledger) (accounts : List String) (unit : LimitUnit) (since : ℤ)
    (until' : Option ℤ) : ℚ :=
  ((l.usage.filter fun row => row.accountId ∈ accounts && row.within since until').map
    (·.units unit)).sum

def reservedNow (l : Ledger) (accounts : List String) (unit : LimitUnit) (now : ℤ) : ℚ :=
  ((l.reservations.filter fun r => r.accountId ∈ accounts && r.live now).map (·.units unit)).sum

def inFlight (l : Ledger) (accounts : List String) (now : ℤ) : ℕ :=
  (l.reservations.filter fun r => r.accountId ∈ accounts && r.live now).length

def spendSince (l : Ledger) (since : ℤ) : ℚ :=
  ((l.usage.filter fun row => since ≤ row.time && !row.isLocal).map (·.costUsd)).sum

def reservedSpendNow (l : Ledger) (now : ℤ) : ℚ :=
  ((l.reservations.filter fun r => r.live now && !r.isLocal).map (·.estCostUsd)).sum

def taskTokens (l : Ledger) (taskId : String) (now : ℤ) : ℚ :=
  ((l.usage.filter fun row => row.taskId = some taskId).map (·.units .tokens)).sum +
    ((l.reservations.filter fun r => r.taskId = some taskId && r.live now).map
      (·.units .tokens)).sum

/-! Reservations. -/

def getReservation (l : Ledger) (requestId : String) : Option ReservationRow :=
  l.reservations.find? (·.requestId = requestId)

/-- Ids and request ids are unique columns. -/
def insertReservation (l : Ledger) (r : ReservationRow) : Except String Ledger :=
  if l.reservations.any fun r' => r'.id = r.id || r'.requestId = r.requestId then
    .error "UNIQUE constraint failed"
  else .ok { l with reservations := l.reservations ++ [{ r with status := .active }] }

/-- `UPDATE reservations SET … WHERE …` -/
def updateWhere (l : Ledger) (p : ReservationRow → Bool) (f : ReservationRow → ReservationRow) :
    Ledger :=
  { l with reservations := l.reservations.map fun r => if p r then f r else r }

def renewLease (l : Ledger) (requestId : String) (until' : ℤ) : Ledger :=
  l.updateWhere (fun r => r.requestId = requestId && r.status = .active)
    fun r => { r with leaseExpiresAt := max r.leaseExpiresAt until' }

def hasUsage (l : Ledger) (requestId : String) : Bool := l.usage.any (·.requestId = requestId)

/-- The transaction of `settle`, with what it returns. -/
def settle (l : Ledger) (row : UsageRow) : Bool × Ledger :=
  if l.hasUsage row.requestId then (false, l)
  else
    (true, updateWhere { l with usage := l.usage ++ [row] }
      (fun r => r.requestId = row.requestId && (r.status = .active || r.status = .expired))
      fun r => { r with status := .settled })

/-- The transaction of `release`. -/
def release (l : Ledger) (requestId : String) : Ledger :=
  match l.getReservation requestId with
  | none => l
  | some r =>
    if r.status = .active then
      l.updateWhere (·.requestId = requestId) fun r => { r with status := .released }
    else l

/-- The rows that `recoverExpired` selects. -/
def lapsed (l : Ledger) (now : ℤ) : List ReservationRow := l.reservations.filter (·.lapsed now)

/-- The transaction by which `recoverExpired` takes one row, with whether it won it. -/
def expire (l : Ledger) (id : String) (now : ℤ) : Bool × Ledger :=
  (l.reservations.any fun r => r.id = id && r.lapsed now,
    l.updateWhere (fun r => r.id = id && r.lapsed now) fun r => { r with status := .expired })

end Ledger

/-- What an expired reservation is charged. -/
def conservativeCharge (r : ReservationRow) (now : ℤ) : UsageRow where
  requestId := r.requestId
  accountId := r.accountId
  modelId := r.modelId
  taskId := r.taskId
  agent := none
  workload := some r.workload
  inputTokens := r.estInputTokens
  outputTokens := r.estOutputTokens
  cachedInputTokens := 0
  reasoningTokens := 0
  requests := r.estRequests
  costUsd := r.estCostUsd
  source := .conservative
  time := now
  durationMs := none
  isLocal := r.isLocal

namespace Ledger

/-! Health. -/

def healthRow (l : Ledger) (accountId : String) : Option HealthRow :=
  (l.health.find? (·.1 = accountId)).map Prod.snd

/-- Cooldowns and quota blocks end on their own; an authentication block needs a human. -/
def getHealth (l : Ledger) (accountId : String) (now : ℤ) : HealthRow :=
  match l.healthRow accountId with
  | none => ⟨.ok, none, ""⟩
  | some row =>
    if row.health = .ok then ⟨.ok, none, ""⟩
    else if row.untilAt.any (· ≤ now) && row.health ≠ .authBlocked then ⟨.ok, none, ""⟩
    else row

def setHealth (l : Ledger) (accountId : String) (row : HealthRow) : Ledger :=
  { l with health := (l.health.filter (·.1 ≠ accountId)) ++ [(accountId, row)] }

end Ledger

end Wazir.Resources
