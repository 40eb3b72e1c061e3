import Wazir.Async.System
import Wazir.Resources.Ledger

/-! Admission and reconciliation (`resources/budgetManager.ts`): what a request is checked against,
and the procedures that any number of processes run on one ledger. A process does nothing else
between two statements or transactions, but others do, and a process may die there. -/

namespace Wazir.Resources

open Wazir.Async

structure AdmissionRequest where
  requestId : String
  accountId : String
  modelId : String
  workload : WorkloadClass
  estimatedInputTokens : ℚ
  estimatedOutputTokens : ℚ
  taskId : Option String
  requests : Option ℚ

inductive AdmissionOutcome where
  | admitted
  | deferred
  | blocked
  deriving DecidableEq

/-- Why a request was refused, or what was noted about it. -/
inductive AdmissionReason where
  | unknownAccount
  | disabled
  | emergencyStop (reason : String)
  | notEnforced
  | paidIsAdvisory
  | paidNotAuthorized
  | workloadNotServed
  | localOnly
  | contextExceeded (needed limit : ℚ)
  | authBlocked (reason : String)
  | quotaBlocked (reason : String)
  | cooldown (reason : String)
  | concurrency (limit : ℕ)
  | unknownLimit (unit : LimitUnit) (window : String)
  | limitExceeded (limit : LimitSpec) (used reserved adding : ℚ)
  | utilization (limit : LimitSpec) (utilization : ℚ) (mode : BudgetMode)
  | conserving
  | critical
  | taskBudget (total : ℚ)
  | spendCeiling (window : String) (total : ℚ)
  | duplicateRequestId

structure AdmissionDecision where
  requestId : String
  accountId : String
  outcome : AdmissionOutcome
  reservationId : Option String
  mode : BudgetMode
  reasons : List AdmissionReason
  retryAt : Option ℤ

/-- The accounts and the policy that all processes share, as validation lets them through. -/
structure ResourceConfig where
  accounts : List AccountConfig
  policy : ResourcePolicy
  valid : ∀ account ∈ accounts, validAccount account = true

namespace ResourceConfig

def account (config : ResourceConfig) (id : String) : Option AccountConfig :=
  config.accounts.find? (·.id = id)

/-- All credentials that share one provider-side quota. -/
def scope (config : ResourceConfig) (account : AccountConfig) : List String :=
  match account.quotaGroup with
  | none => [account.id]
  | some group =>
    if group = "" then [account.id]
    else (config.accounts.filter fun a =>
      a.enabled ≠ some false && a.quotaGroup = some group).map (·.id)

end ResourceConfig

def unitsOf (unit : LimitUnit) (req : AdmissionRequest) (cost : ℚ) : ℚ :=
  match unit with
  | .tokens => req.estimatedInputTokens + req.estimatedOutputTokens
  | .inputTokens => req.estimatedInputTokens
  | .outputTokens => req.estimatedOutputTokens
  | .requests => req.requests.getD 1
  | .costUsd => cost

/-- `n ? [limit] : []` of a rate per minute. -/
def perMinute (unit : LimitUnit) : Option ℚ → List LimitSpec
  | none => []
  | some n => if n = 0 then [] else [⟨unit, "1m", some n, .configured, none, none⟩]

def effectiveLimits (account : AccountConfig) : List LimitSpec :=
  account.limits.getD [] ++ perMinute .requests account.rpm ++ perMinute .tokens account.tpm

structure LimitStatus where
  used : ℚ
  reserved : ℚ
  utilization : Option ℚ
  windowEnd : ℤ
  mode : BudgetMode

/-- `total / limit > 1`, also where the division is by zero. -/
def overLimit (total limit : ℚ) : Bool :=
  if limit = 0 then 0 < total else 1 < total / limit

/-- `DEFAULT_THRESHOLDS`, refined by those of the limit. -/
def LimitSpec.threshold (spec : LimitSpec) : Thresholds where
  advisory := (spec.thresholds.bind (·.advisory)).getD defaultThresholds.advisory
  conserve := (spec.thresholds.bind (·.conserve)).getD defaultThresholds.conserve
  critical := (spec.thresholds.bind (·.critical)).getD defaultThresholds.critical

def limitMode (spec : LimitSpec) (total limit : ℚ) : BudgetMode :=
  let atLeast := fun t : ℚ => if limit = 0 then decide (0 < total) else decide (t ≤ total / limit)
  if overLimit total limit && spec.hard ≠ some false then .exhausted
  else if atLeast spec.threshold.critical then .critical
  else if atLeast spec.threshold.conserve then .conserve
  else if atLeast spec.threshold.advisory then .advisory
  else .normal

/-- Limit status with a prospective addition. -/
def limitStatus (config : ResourceConfig) (account : AccountConfig) (limit : LimitSpec) (adding : ℚ)
    (now : ℤ) (l : Ledger) : Except String LimitStatus :=
  (windowBounds limit.window now).map fun bounds =>
    let used := l.usedSince (config.scope account) limit.unit bounds.start bounds.endsAt
    let reserved := l.reservedNow (config.scope account) limit.unit now
    let windowEnd := bounds.endsAt.getD bounds.resetHint
    match limit.limit with
    | none =>
      let mode : BudgetMode := match account.unknownLimitPolicy with
        | some .allow => .unknown
        | some .deny => .exhausted
        | _ => .conserve
      ⟨used, reserved, none, windowEnd, mode⟩
    | some n =>
      ⟨used, reserved, some ((used + reserved + adding) / n), windowEnd,
        limitMode limit (used + reserved + adding) n⟩

/-- What a check comes to: a refusal, or what it leaves for the next. -/
abbrev Check (α : Type) := Except (Except String AdmissionDecision) α

section Evaluate

variable (config : ResourceConfig) (req : AdmissionRequest) (account : AccountConfig) (now : ℤ)
  (l : Ledger)

def deny (outcome : AdmissionOutcome) (reasons : List AdmissionReason) (reason : AdmissionReason)
    (mode : BudgetMode) (retryAt : Option ℤ) : AdmissionDecision :=
  ⟨req.requestId, req.accountId, outcome, none, mode, reasons ++ [reason], retryAt⟩

def estCost : ℚ :=
  costUsd (pricingFor account req.modelId) req.estimatedInputTokens req.estimatedOutputTokens 0

/-- What does not depend on the sums: authorisation, workloads, the context and the health. -/
def checkAccount : Option AdmissionDecision :=
  let needed := req.estimatedInputTokens + req.estimatedOutputTokens
  let context := (account.contextLimits.getD []).lookup req.modelId
  let health := l.getHealth account.id now
  if isPaid account && !(config.policy.paidApiFallback || account.allowPaid) then
    some (deny req .blocked [] .paidNotAuthorized .exhausted none)
  else if (account.workloads.any fun ws => ws ≠ [] && req.workload ∉ ws) then
    some (deny req .blocked [] .workloadNotServed .normal none)
  else if account.kind ≠ .localMachine && config.policy.localOnlyWorkloads.any (req.workload ∈ ·) then
    some (deny req .blocked [] .localOnly .normal none)
  else if context.any fun limit => limit ≠ 0 && limit < needed then
    some (deny req .blocked [] (.contextExceeded needed (context.getD 0)) .normal none)
  else
    match health.health with
    | .authBlocked => some (deny req .blocked [] (.authBlocked health.reason) .exhausted none)
    | .quotaBlocked =>
      some (deny req .deferred [] (.quotaBlocked health.reason) .exhausted health.untilAt)
    | .cooldown => some (deny req .deferred [] (.cooldown health.reason) .normal health.untilAt)
    | .ok => none

def checkConcurrency : Option AdmissionDecision :=
  match account.maxConcurrent with
  | none => none
  | some max =>
    if max ≠ 0 && max ≤ l.inFlight (config.scope account) now then
      some (deny req .deferred [] (.concurrency max) .normal (some (now + 250)))
    else none

/-- One limit after another; the mode is the worst so far. -/
def checkLimits : List LimitSpec → BudgetMode → List AdmissionReason →
    Check (BudgetMode × List AdmissionReason)
  | [], mode, reasons => .ok (mode, reasons)
  | limit :: rest, mode, reasons =>
    let adding := unitsOf limit.unit req (estCost req account)
    match limitStatus config account limit adding now l with
    | .error e => .error (.error e)
    | .ok s =>
      if s.mode = .exhausted then
        match limit.limit with
        | none => .error (.ok (deny req .blocked reasons (.unknownLimit limit.unit limit.window)
            .exhausted none))
        | some _ => .error (.ok (deny req .deferred reasons
            (.limitExceeded limit s.used s.reserved adding) .exhausted (some s.windowEnd)))
      else
        let noted := match s.utilization with
          | some u => if s.mode = .normal then reasons else reasons ++ [.utilization limit u s.mode]
          | none => reasons ++ [.unknownLimit limit.unit limit.window]
        checkLimits rest (worse mode s.mode) noted

def checkMode (mode : BudgetMode) (reasons : List AdmissionReason) : Option AdmissionDecision :=
  if mode = .conserve && req.workload ∉ account.reserveFor.getD defaultReserveFor then
    some (deny req .blocked reasons .conserving mode none)
  else if mode = .critical && req.workload ∉ account.criticalOnly.getD defaultCriticalOnly then
    some (deny req .blocked reasons .critical mode none)
  else none

def checkTask (mode : BudgetMode) (reasons : List AdmissionReason) : Option AdmissionDecision :=
  match req.taskId with
  | none => none
  | some task =>
    let total := l.taskTokens task now + req.estimatedInputTokens + req.estimatedOutputTokens
    if 0 < config.policy.maxTaskTokens && task ≠ "" && config.policy.maxTaskTokens < total then
      some (deny req .blocked reasons (.taskBudget total) mode none)
    else none

/-- `spendCheck` -/
def checkSpend (limitUsd : ℚ) (window : String) (reasons : List AdmissionReason) :
    Except String (Option AdmissionDecision) :=
  if 0 < limitUsd then
    (windowBounds window now).map fun b =>
      let total := l.spendSince b.start + l.reservedSpendNow now + estCost req account
      if limitUsd < total then
        some (deny req .deferred reasons (.spendCeiling window total) .exhausted (some b.resetHint))
      else none
  else .ok none

/-- `b ?? c` of two checks. -/
def orElse (b c : Except String (Option AdmissionDecision)) :
    Except String (Option AdmissionDecision) :=
  match b with
  | .ok none => c
  | other => other

def checkPaid (reasons : List AdmissionReason) : Except String (Option AdmissionDecision) :=
  if isPaid account && 0 < estCost req account then
    orElse (checkSpend req account now l config.policy.dailySpendUsd "day" reasons)
      (checkSpend req account now l config.policy.monthlySpendUsd "month" reasons)
  else .ok none

/-- The reservation of an admitted request. -/
def reservationOf (id : String) : ReservationRow where
  id := id
  requestId := req.requestId
  accountId := account.id
  modelId := req.modelId
  taskId := req.taskId
  workload := req.workload
  estInputTokens := req.estimatedInputTokens
  estOutputTokens := req.estimatedOutputTokens
  estRequests := req.requests.getD 1
  estCostUsd := estCost req account
  status := .active
  createdAt := now
  leaseExpiresAt := now + config.policy.leaseMs
  isLocal := account.kind = .localMachine

/-- Request ids are unique: a second admission of one is refused. -/
def reserveAndAdmit (uuid : String) (mode : BudgetMode) (reasons : List AdmissionReason) :
    Except String (AdmissionDecision × Ledger) :=
  if (l.getReservation req.requestId).isSome then
    .ok (deny req .blocked reasons .duplicateRequestId mode none, l)
  else
    (l.insertReservation (reservationOf config req account now uuid)).map fun l' =>
      (⟨req.requestId, req.accountId, .admitted, some uuid, mode, reasons, none⟩, l')

/-- A first refusal, or what comes after. -/
def orElseDo (refusal : Option AdmissionDecision)
    (next : Except String (AdmissionDecision × Ledger)) :
    Except String (AdmissionDecision × Ledger) :=
  match refusal with
  | some decision => .ok (decision, l)
  | none => next

/-- `evaluate` with `reserve`, as the one transaction it is; `uuid` is the new reservation's id. -/
def evaluate (uuid : String) : Except String (AdmissionDecision × Ledger) :=
  if account.enabled = some false then .ok (deny req .blocked [] .disabled .exhausted none, l)
  else if account.kind ≠ .localMachine && l.stop.isSome then
    .ok (deny req .blocked [] (.emergencyStop (l.stop.getD "")) .exhausted none, l)
  else if !config.policy.enforce then
    reserveAndAdmit config req account now l uuid .normal
      (.notEnforced :: if isPaid account then [.paidIsAdvisory] else [])
  else
    orElseDo l (checkAccount config req account now l) <|
    orElseDo l (checkConcurrency config req account now l) <|
    match checkLimits config req account now l (effectiveLimits account) .normal [] with
    | .error (.error e) => .error e
    | .error (.ok decision) => .ok (decision, l)
    | .ok (mode, reasons) =>
      orElseDo l (checkMode req account mode reasons) <|
      orElseDo l (checkTask config req now l mode reasons) <|
      match checkPaid config req account now l reasons with
      | .error e => .error e
      | .ok refusal =>
        orElseDo l refusal <| reserveAndAdmit config req account now l uuid mode reasons

end Evaluate

/-! The statements and transactions that the procedures await. -/

inductive LedgerOp where
  | clock
  /-- `appendEvent` outside of a transaction. -/
  | audit
  | getReservation (requestId : String)
  | lapsed (now : ℤ)
  | expire (r : ReservationRow) (now : ℤ)
  | settle (row : UsageRow)
  | release (requestId : String)
  | renewLease (requestId : String) (until' : ℤ)
  | setHealth (accountId : String) (row : HealthRow)
  | setStop (stop : Option String)
  | evaluate (req : AdmissionRequest) (account : AccountConfig)

abbrev LedgerRes : LedgerOp → Type
  | .clock => ℤ
  | .audit => Except String Unit
  | .getReservation _ => Except String (Option ReservationRow)
  | .lapsed _ => Except String (List ReservationRow)
  | .expire _ _ => Except String Bool
  | .settle _ => Except String Bool
  | .release _ => Except String Unit
  | .renewLease _ _ => Except String Unit
  | .setHealth _ _ => Except String Unit
  | .setStop _ => Except String Unit
  | .evaluate _ _ => Except String AdmissionDecision

/-- What the surroundings give a statement: the time, a random id, and whether the database refuses
it (busy, full, closed), in which case nothing changes. -/
structure LedgerInput where
  now : ℤ
  uuid : String
  refused : Option String

/-- A statement with what it returns and what it makes of the tables. -/
def attempt {α : Type} (inp : LedgerInput) (l : Ledger) (done : Except String (α × Ledger)) :
    Except String α × Ledger :=
  match inp.refused with
  | some e => (.error e, l)
  | none =>
    match done with
    | .error e => (.error e, l)
    | .ok (a, l') => (.ok a, l')

def ledgerExec (config : ResourceConfig) (op : LedgerOp) (inp : LedgerInput) (l : Ledger) :
    LedgerRes op × Ledger :=
  match op with
  | .clock => (inp.now, l)
  | .audit => attempt inp l (.ok ((), l))
  | .getReservation requestId => attempt inp l (.ok (l.getReservation requestId, l))
  | .lapsed now => attempt inp l (.ok (l.lapsed now, l))
  | .expire r now => attempt inp l (.ok (l.expire r.id now))
  | .settle row => attempt inp l (.ok (l.settle row))
  | .release requestId => attempt inp l (.ok ((), l.release requestId))
  | .renewLease requestId until' => attempt inp l (.ok ((), l.renewLease requestId until'))
  | .setHealth accountId row => attempt inp l (.ok ((), l.setHealth accountId row))
  | .setStop stop => attempt inp l (.ok ((), { l with stop := stop }))
  | .evaluate req account => attempt inp l (evaluate config req account inp.now l inp.uuid)

abbrev LedgerProg := Prog LedgerOp LedgerRes String

/-! The procedures. -/

def clock : LedgerProg ℤ := .call .clock .ret

/-- One row after another: take it, and charge it if this process took it. -/
def recoverRows (now : ℤ) : List ReservationRow → LedgerProg ℕ
  | [] => return 0
  | r :: rest => do
    let won ← (.call (.expire r now) .resume : LedgerProg Bool)
    if won then
      let charged ← (.call (.settle (conservativeCharge r now)) .resume : LedgerProg Bool)
      let recovered ← recoverRows now rest
      return (if charged then 1 else 0) + recovered
    else recoverRows now rest

def recoverExpired (now : ℤ) : LedgerProg ℕ := do
  let rows ← (.call (.lapsed now) .resume : LedgerProg (List ReservationRow))
  recoverRows now rows

/-- `admit` -/
def admitRequest (config : ResourceConfig) (req : AdmissionRequest) :
    LedgerProg AdmissionDecision := do
  match config.account req.accountId with
  | none => return deny req .blocked [] .unknownAccount .exhausted none
  | some account =>
    let now ← clock
    let _ ← recoverExpired now
    let decision ← (.call (.evaluate req account) .resume : LedgerProg AdmissionDecision)
    (.call .audit .resume : LedgerProg Unit)
    return decision

structure UsageMeasurement where
  inputTokens : ℚ
  outputTokens : ℚ
  cachedInputTokens : Option ℚ
  reasoningTokens : Option ℚ
  source : UsageSource

def usageOf (config : ResourceConfig) (r : ReservationRow) (usage : UsageMeasurement)
    (agent : Option String) (durationMs : Option ℤ) (now : ℤ) : UsageRow where
  requestId := r.requestId
  accountId := r.accountId
  modelId := r.modelId
  taskId := r.taskId
  agent := agent
  workload := some r.workload
  inputTokens := usage.inputTokens
  outputTokens := usage.outputTokens
  cachedInputTokens := usage.cachedInputTokens.getD 0
  reasoningTokens := usage.reasoningTokens.getD 0
  requests := r.estRequests
  costUsd := match config.account r.accountId with
    | none => 0
    | some account => costUsd (pricingFor account r.modelId) usage.inputTokens usage.outputTokens
        (usage.cachedInputTokens.getD 0)
  source := usage.source
  time := now
  durationMs := durationMs
  isLocal := r.isLocal

def reconcile (config : ResourceConfig) (requestId : String) (usage : UsageMeasurement)
    (agent : Option String) (durationMs : Option ℤ) : LedgerProg Bool := do
  let r ← (.call (.getReservation requestId) .resume : LedgerProg (Option ReservationRow))
  match r with
  | none => return false
  | some r =>
    let now ← clock
    .call (.settle (usageOf config r usage agent durationMs now)) .resume

inductive FailureClass where
  | authFailed
  | quotaExhausted
  | rateLimit
  | other
  deriving DecidableEq

structure FailureReport where
  failureClass : FailureClass
  retryAfterMs : Option ℤ
  ambiguous : Bool
  partialUsage : Option UsageMeasurement
  message : String

/-- `Math.min(...resets)` of the known limits' reset hints. -/
def earliestReset (account : Option AccountConfig) (now : ℤ) : Except String (Option ℤ) :=
  match account with
  | none => .ok none
  | some account =>
    ((effectiveLimits account).filter (·.limit.isSome)).foldlM (fun soonest limit =>
      (windowBounds limit.window now).map fun b =>
        some (match soonest with
          | none => b.resetHint
          | some t => min t b.resetHint)) none

/-- What a failure makes of the account's health. -/
def healthAfter (config : ResourceConfig) (r : ReservationRow) (report : FailureReport) (now : ℤ) :
    Except String (Option HealthRow) :=
  match report.failureClass with
  | .authFailed => .ok (some ⟨.authBlocked, none, report.message⟩)
  | .quotaExhausted =>
    (earliestReset (config.account r.accountId) now).map fun reset =>
      let until' := match report.retryAfterMs with
        | some ms => now + ms
        | none => reset.getD (now + 3600000)
      some ⟨.quotaBlocked, some until', report.message⟩
  | .rateLimit => .ok (some ⟨.cooldown, some (now + report.retryAfterMs.getD 30000), report.message⟩)
  | .other => .ok none

/-- An ambiguous failure is charged the larger of what was observed and what was reserved. -/
def ambiguousUsage (r : ReservationRow) (report : FailureReport) : UsageMeasurement where
  inputTokens := max ((report.partialUsage.map (·.inputTokens)).getD 0) r.estInputTokens
  outputTokens := max ((report.partialUsage.map (·.outputTokens)).getD 0) r.estOutputTokens
  cachedInputTokens := report.partialUsage.bind (·.cachedInputTokens)
  reasoningTokens := none
  source := .conservative

def fail (config : ResourceConfig) (requestId : String) (report : FailureReport) :
    LedgerProg Unit := do
  let r ← (.call (.getReservation requestId) .resume : LedgerProg (Option ReservationRow))
  match r with
  | none => return
  | some r =>
    let now ← clock
    let health ← (.resume (healthAfter config r report now) : LedgerProg (Option HealthRow))
    match health with
    | none => pure ()
    | some row =>
      (.call (.setHealth r.accountId row) .resume : LedgerProg Unit)
      (.call .audit .resume : LedgerProg Unit)
    (.call .audit .resume : LedgerProg Unit)
    if report.ambiguous then
      (.call .audit .resume : LedgerProg Unit)
      let _ ← reconcile config requestId (ambiguousUsage r report) none none
      return
    else .call (.release requestId) .resume

/-! Any number of processes on one ledger. -/

inductive LedgerCall where
  | admitRequest (req : AdmissionRequest)
  | reconcile (requestId : String) (usage : UsageMeasurement) (agent : Option String)
    (durationMs : Option ℤ)
  | fail (requestId : String) (report : FailureReport)
  | release (requestId : String)
  | renewLease (requestId : String) (until' : ℤ)
  /-- Without an argument the clock is read. -/
  | recoverExpired (now : Option ℤ)
  | setHealth (accountId : String) (row : HealthRow)
  | setStop (stop : Option String)

structure LedgerRequest where
  process : ℕ
  call : LedgerCall

def LedgerRequest.body (config : ResourceConfig) (c : LedgerRequest) :
    LedgerProg (Option AdmissionDecision) :=
  match c.call with
  | .admitRequest req => some <$> Resources.admitRequest config req
  | .reconcile requestId usage agent durationMs => do
    let _ ← Resources.reconcile config requestId usage agent durationMs
    return none
  | .fail requestId report => do
    Resources.fail config requestId report
    return none
  | .release requestId => do
    (.call (.release requestId) .resume : LedgerProg Unit)
    return none
  | .renewLease requestId until' => do
    (.call (.renewLease requestId until') .resume : LedgerProg Unit)
    return none
  | .recoverExpired now => do
    let now ← match now with
      | some now => (pure now : LedgerProg ℤ)
      | none => clock
    let _ ← Resources.recoverExpired now
    return none
  | .setHealth accountId row => do
    (.call (.setHealth accountId row) .resume : LedgerProg Unit)
    return none
  | .setStop stop => do
    (.call (.setStop stop) .resume : LedgerProg Unit)
    return none

def ledgerSystem (config : ResourceConfig) :
    System LedgerOp LedgerRes String (Option AdmissionDecision) LedgerRequest ℕ LedgerInput
      Ledger where
  body := LedgerRequest.body config
  proc := LedgerRequest.process
  exec op inp l := some (ledgerExec config op inp l)
  admits _ l := some l
  crash _ l := l

abbrev LedgerThread := Thread LedgerOp LedgerRes String (Option AdmissionDecision) LedgerRequest
abbrev LedgerConfig :=
  Config LedgerOp LedgerRes String (Option AdmissionDecision) LedgerRequest ℕ LedgerInput Ledger
abbrev LedgerAction := Action LedgerRequest ℕ LedgerInput

end Wazir.Resources
