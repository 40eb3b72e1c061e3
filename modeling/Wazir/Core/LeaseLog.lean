import Wazir.Core.ExecutionEngine
import Wazir.Shared.Reload

/-! The lease of one execution across restarts (`services/executionEngine.ts`), with the dates and
the numbers of a lease as JavaScript has them: the calls that move it, the log that tells of them
and the lease that a new engine reads out of the log. -/

namespace Wazir.Core.Leases

open JsValue

/-! Numbers and dates. -/

def plus : JsNumber → ℚ → JsNumber
  | .finite q, k => .finite (q + k)
  | n, _ => n

/-- `a <= b` of numbers. -/
def atMost : JsNumber → JsNumber → Bool
  | .finite a, .finite b => a ≤ b
  | .nan, _ | _, .nan => false
  | .infinite true, _ | _, .infinite false => true
  | _, _ => false

/-- `a === b` of numbers. -/
def sameNumber (a b : JsNumber) : Bool := a = b ∧ a ≠ .nan

/-- `a.getTime() <= b.getTime()`, false for the invalid date. -/
def notAfter : JsDate → JsDate → Bool
  | some a, some b => a.1 ≤ b.1
  | _, _ => false

def after (a b : JsDate) : Bool := a.any fun s => b.any fun t => t.1 < s.1

/-- The rounding of sums and the reading of date texts. -/
structure Host where
  round : ℚ → ℚ
  parseDate : String → JsDate

/-- `new Date(now.getTime() + ttlMs)` -/
def Host.addTtl (host : Host) (now : JsDate) (ttlMs : JsNumber) : JsDate :=
  match now, ttlMs with
  | some t, .finite q =>
    let ms := host.round (t.1 + q)
    if |ms| ≤ maxTimeMs then JsDate.ofMs (if 0 ≤ ms then ⌊ms⌋ else ⌈ms⌉) else none
  | _, _ => none

/-- The text that `String(date)` gives has whole seconds only. -/
def wholeSeconds (t : Timestamp) : JsDate := JsDate.ofMs (t.1 - t.1 % 1000)

/-- `new Date(String(v))`, of a string or a date. -/
def Host.newDate (host : Host) : JsValue → JsDate
  | .str s => host.parseDate s
  | .date d => d.bind wholeSeconds
  | _ => none

/-! Leases and the events that tell of them. -/

structure Lease where
  workerId : JsValue
  epoch : JsNumber
  token : String
  acquiredAt : JsDate
  renewedAt : JsDate
  expiresAt : JsDate
  ttlMs : JsNumber
  released : Bool

inductive LeaseEventType where
  | acquired
  | renewed
  | released
  deriving DecidableEq

/-- `workerId` is the worker of the execution record. -/
structure LeaseEvent where
  type : LeaseEventType
  timestamp : Timestamp
  workerId : JsValue
  data : JsValue

def defaultTtlMs : JsNumber := .finite 30000

/-- What the event of an acquisition or a renewal carries. -/
def leaseFields (lease : Lease) : List (String × JsValue) :=
  [("workerId", lease.workerId), ("epoch", .num lease.epoch), ("leaseEpoch", .num lease.epoch),
    ("token", .str lease.token), ("acquiredAt", .date lease.acquiredAt),
    ("renewedAt", .date lease.renewedAt), ("expiresAt", .date lease.expiresAt),
    ("ttlMs", .num lease.ttlMs)]

def releaseFields (lease : Lease) (releasedAt : JsDate) : List (String × JsValue) :=
  [("workerId", lease.workerId), ("epoch", .num lease.epoch), ("leaseEpoch", .num lease.epoch),
    ("token", .str lease.token), ("releasedAt", .date releasedAt)]

section Calls

variable (host : Host) (executionId : String)

/-- One step of `reconstructLeaseFromEvents`. -/
def leaseAfter (current : Option Lease) (event : LeaseEvent) : Lease :=
  let data := event.data
  let workerId := match data.get "workerId" with
    | .str s => .str s
    | _ => match event.workerId with
      | .undefined | .null => .str "unknown"
      | v => v
  let epoch := (data.get "epoch").number.getD ((data.get "leaseEpoch").number.getD
    (plus ((current.map (·.epoch)).getD (.finite 0)) (if event.type = .acquired then 1 else 0)))
  let ttlMs := (data.get "ttlMs").number.getD ((current.map (·.ttlMs)).getD defaultTtlMs)
  let ts := some event.timestamp
  let acquiredAt := if (data.get "acquiredAt").truthy then host.newDate (data.get "acquiredAt")
    else (current.map (·.acquiredAt)).getD ts
  let renewedAt := if (data.get "renewedAt").truthy then host.newDate (data.get "renewedAt") else ts
  let expiresAt := if (data.get "expiresAt").truthy then host.newDate (data.get "expiresAt")
    else host.addTtl renewedAt ttlMs
  { workerId := workerId
    epoch := epoch
    token := (data.get "token").string.getD ((current.map (·.token)).getD
      ("lease-" ++ executionId ++ "-" ++ template (.num epoch)))
    acquiredAt := acquiredAt
    renewedAt := renewedAt
    expiresAt := if event.type = .released then ts else expiresAt
    ttlMs := ttlMs
    released := event.type = .released }

def reconstructLease (log : List LeaseEvent) : Option Lease :=
  log.foldl (fun current event => some (leaseAfter host executionId current event)) none

/-- `{ ttlMs, now }` or the time to live alone. -/
inductive AcquireOptions where
  | ttlMs (n : JsNumber)
  | options (ttlMs : Option JsNumber) (now : Option JsDate)

/-- The third argument of `renewLease` and `releaseLease`. -/
inductive LeaseOptions where
  | absent
  | number (n : JsNumber)
  | options (leaseEpoch epoch : Option JsNumber) (leaseToken : Option String)
      (ttlMs : Option JsNumber) (now : Option JsDate)

inductive LeaseCall where
  | acquire (workerId : String) (options : AcquireOptions) (nowArg : Option JsDate)
  | renew (workerId : String) (options : LeaseOptions) (ttlMsArg : Option JsNumber)
      (nowArg : Option JsDate)
  | release (workerId : String) (options : LeaseOptions) (nowArg : Option JsDate)

/-- What a call finds around it: the clock as it starts and as its event is made, a random id, the
worker that the record names, and whether its write lands. -/
structure Moment where
  now : Timestamp
  stamp : Timestamp
  uuid : String
  recordWorker : JsValue
  lands : Bool

structure Claimant where
  workerId : Option String := none
  leaseEpoch : Option JsNumber := none
  epoch : Option JsNumber := none
  leaseToken : Option String := none

/-- Why `assertLease` refuses the claimant. -/
def leaseRefusal (live : Option Lease) (c : Claimant) (now : JsDate) : Option StaleLease :=
  let claimedEpoch := c.leaseEpoch.or c.epoch
  if c.workerId.isNone && claimedEpoch.isNone && c.leaseToken.isNone then none
  else
    match live with
    | none => some .noLease
    | some l =>
      if l.released then some .released
      else if claimedEpoch.any fun n => !sameNumber l.epoch n then some .epoch
      else if c.workerId.any fun w => l.workerId.string ≠ some w then some .worker
      else if c.leaseToken.any (· ≠ l.token) then some .token
      else if notAfter l.expiresAt now then some .expired
      else none

/-- `granted` are the epochs of the leases that `acquireLease` has returned; the engine has none of
it. `failed` is set from a write that failed to the next start. -/
structure LeaseState where
  status : ExecutionStatus
  live : Option Lease
  log : List LeaseEvent
  failed : Bool
  granted : List JsNumber

def start (status : ExecutionStatus) : LeaseState where
  status := status
  live := none
  log := []
  failed := false
  granted := []

def AcquireOptions.ttl : AcquireOptions → JsNumber
  | .ttlMs n => n
  | .options given _ => given.getD defaultTtlMs

/-- The time at which an acquisition works. -/
def AcquireOptions.at (options : AcquireOptions) (nowArg : Option JsDate) (env : Moment) : JsDate :=
  match options with
  | .ttlMs _ => nowArg.getD (some env.now)
  | .options _ now => (now.or nowArg).getD (some env.now)

namespace LeaseState

/-- `assertLease`, with the execution's status where the caller asks for it. -/
def refusal (s : LeaseState) (c : Claimant) (now : JsDate) (rejectIfTerminal : Bool) :
    Option StaleLease :=
  (leaseRefusal s.live c now).or
    (if rejectIfTerminal && s.status ∈ terminalExecution then some .terminal else none)

def acquired (s : LeaseState) (workerId : String) (options : AcquireOptions)
    (nowArg : Option JsDate) (env : Moment) : Lease :=
  let ttlMs := options.ttl
  let now := options.at nowArg env
  let epoch := plus ((s.live.map (·.epoch)).getD (.finite 0)) 1
  { workerId := .str workerId
    epoch := epoch
    token := "lease-" ++ executionId ++ "-" ++ template (.num epoch) ++ "-" ++ env.uuid
    acquiredAt := now
    renewedAt := now
    expiresAt := host.addTtl now ttlMs
    ttlMs := ttlMs
    released := false }

end LeaseState

/-- The time at which a renewal or a release works. -/
def LeaseOptions.at (options : LeaseOptions) (nowArg : Option JsDate) (env : Moment) : JsDate :=
  let given := nowArg.getD (some env.now)
  match options with
  | .options _ _ _ _ now => now.getD given
  | _ => given

namespace LeaseState

/-- A plain number is an epoch, or else a time to live. -/
def isEpoch (s : LeaseState) (n : JsNumber) (ttlMsArg : Option JsNumber) : Bool :=
  ttlMsArg.isSome || atMost n (plus ((s.live.map (·.epoch)).getD (.finite 0)) 10)

def renewClaimant (s : LeaseState) (workerId : String) (options : LeaseOptions)
    (ttlMsArg : Option JsNumber) : Claimant :=
  match options with
  | .absent => { workerId := some workerId }
  | .number n =>
    { workerId := some workerId, leaseEpoch := if s.isEpoch n ttlMsArg then some n else none }
  | .options leaseEpoch epoch leaseToken _ _ =>
    { workerId := some workerId, leaseEpoch := leaseEpoch.or epoch, leaseToken := leaseToken }

def renewTtl (s : LeaseState) (options : LeaseOptions) (ttlMsArg : Option JsNumber) : JsNumber :=
  let kept := (s.live.map (·.ttlMs)).getD defaultTtlMs
  match options with
  | .absent => kept
  | .number n => if s.isEpoch n ttlMsArg then ttlMsArg.getD kept else n
  | .options _ _ _ ttlMs _ => ttlMs.getD kept

def releaseClaimant (workerId : String) : LeaseOptions → Claimant
  | .absent => { workerId := some workerId }
  | .number n => { workerId := some workerId, leaseEpoch := some n }
  | .options leaseEpoch epoch leaseToken _ _ =>
    { workerId := some workerId, leaseEpoch := leaseEpoch.or epoch, leaseToken := leaseToken }

/-- The lease that a call leaves and the event that tells of it. -/
def change (s : LeaseState) (env : Moment) : LeaseCall → Except EngineError (Lease × LeaseEvent)
  | .acquire workerId options nowArg =>
    let lease := s.acquired host executionId workerId options nowArg env
    if workerId = "" then .error .workerRequired
    else if s.status ∈ terminalExecution then .error (.staleLease .terminal)
    else if s.live.any fun l => !l.released && after l.expiresAt lease.acquiredAt &&
        l.workerId.string ≠ some workerId then .error (.staleLease .held)
    else .ok (lease, ⟨.acquired, env.stamp, lease.workerId, .obj (leaseFields lease)⟩)
  | .renew workerId options ttlMsArg nowArg =>
    let now := options.at nowArg env
    let ttlMs := s.renewTtl options ttlMsArg
    match s.refusal (s.renewClaimant workerId options ttlMsArg) now true, s.live with
    | none, some current =>
      let lease := { current with
        renewedAt := now, expiresAt := host.addTtl now ttlMs, ttlMs := ttlMs }
      .ok (lease, ⟨.renewed, env.stamp, env.recordWorker, .obj (leaseFields lease)⟩)
    | some reason, _ => .error (.staleLease reason)
    | none, none => .error (.staleLease .noLease)
  | .release workerId options nowArg =>
    let now := options.at nowArg env
    match s.refusal (releaseClaimant workerId options) now false, s.live with
    | none, some current =>
      let lease := { current with released := true, expiresAt := now }
      .ok (lease, ⟨.released, env.stamp, env.recordWorker, .obj (releaseFields lease now)⟩)
    | some reason, _ => .error (.staleLease reason)
    | none, none => .error (.staleLease .noLease)

end LeaseState

end Calls

/-! Stores and restarts. -/

/-- A store in memory clones the record; the others give back the image of its JSON text, with
dates revived. -/
inductive LeaseStore where
  | memory
  | reviving (store : RevivingStore)

def LeaseStore.back (store : LeaseStore) (host : Host) (v : JsValue) : JsValue :=
  match store with
  | .memory => v
  | .reviving store => store.reload host.parseDate v

/-- An event as a new engine gets it; its timestamp is made a date again where it is none. -/
def LeaseStore.loaded (store : LeaseStore) (host : Host) (e : LeaseEvent) : LeaseEvent :=
  { e with workerId := store.back host e.workerId, data := store.back host e.data }

inductive LeaseAct where
  | call (call : LeaseCall) (env : Moment)
  /-- Another call has moved the execution's status. -/
  | status (status : ExecutionStatus)
  | restart

namespace LeaseState

variable (store : LeaseStore) (host : Host) (executionId : String)

/-- The lease that a fresh engine rebuilds from the stored events. -/
def rebuilt (s : LeaseState) : Option Lease :=
  reconstructLease host executionId (s.log.map (store.loaded host))

def next (s : LeaseState) : LeaseAct → LeaseState
  | .call call env =>
    if s.failed then s
    else
      match s.change host executionId env call with
      | .error _ => s
      | .ok (lease, event) =>
        if env.lands then
          { s with
            live := some lease
            log := s.log ++ [event]
            granted := match call with
              | .acquire .. => s.granted ++ [lease.epoch]
              | _ => s.granted }
        else { s with live := some lease, failed := true }
  | .status status => { s with status := status }
  | .restart =>
    { s with
      live := s.rebuilt store host executionId
      log := s.log.map (store.loaded host)
      failed := false }

end LeaseState

end Wazir.Core.Leases
