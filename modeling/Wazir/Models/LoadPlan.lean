import Mathlib.Algebra.Order.Field.Rat
import Wazir.Shared.JsValue
import Wazir.Shared.Strings

/-! Whether a model can be loaded, with which context, and which models would have to go first
(`estimateTarget` and `planEviction` of `services/modelLifecycleService.ts`). Byte counts and limits are
finite numbers. -/

namespace Wazir.Models

inductive ModelLifecycleState where
  | discovered
  | installed
  | loading
  | loaded
  | ready
  | draining
  | unloaded
  | unloading
  | failed
  | unavailable
  deriving DecidableEq

inductive Health where
  | healthy
  | degraded
  | unavailable
  deriving DecidableEq

inductive DesiredState where
  | ready
  | unloaded
  deriving DecidableEq

structure ModelInstance where
  id : String
  modelId : String
  computerId : Option String
  runtimeId : String
  loaded : Bool
  state : Option ModelLifecycleState
  health : Health
  contextTokens : Option ℚ
  desired : Option DesiredState
  pinned : Bool
  residentMemoryBytes : Option ℚ

/-- `['DRAINING', 'UNLOADING'].includes(i.state ?? '')` -/
def ModelInstance.leaving (i : ModelInstance) : Bool :=
  i.state = some .draining || i.state = some .unloading

inductive ContextMode where
  | auto
  | explicit
  | maxSafe
  deriving DecidableEq

structure ModelLoadOptions where
  context : Option JsNumber
  mode : Option ContextMode
  fit : Bool
  minimumContext : Option ℚ
  evict : Bool
  dryRun : Bool

structure ModelProfile where
  weightBytes : Option ℚ
  contextBytesPerToken : Option ℚ
  runtimeOverheadBytes : Option ℚ
  minimumContext : Option ℚ
  runtimeMinimumContext : Option ℚ
  maximumContext : Option ℚ
  runtimeMaximumContext : Option ℚ

structure ResourceReservation where
  memoryBytes : ℚ
  vramBytes : ℚ

structure ResourceSnapshot where
  availableMemoryBytes : Option ℚ
  totalVramBytes : Option ℚ
  availableVramBytes : Option ℚ
  unifiedMemory : Bool
  activeReservations : List ResourceReservation

/-- What an adapter answers; `known` if its source is not `UNKNOWN`. -/
structure ModelLoadEstimate where
  totalMemoryBytes : Option ℚ
  vramBytes : Option ℚ
  known : Bool

/-- The total, if it is known. -/
def ModelLoadEstimate.total (e : ModelLoadEstimate) : Option ℚ :=
  e.totalMemoryBytes.filter fun total => 0 < total && e.known

inductive Classification where
  | safe
  | warning
  | insufficient
  | unknown
  deriving DecidableEq

structure LoadEstimate where
  candidateContext : ℤ
  estimatedTotalMemory : Option ℚ
  estimatedVram : Option ℚ
  reservationMemoryBytes : Option ℚ
  usableMemory : Option ℚ
  classification : Classification

def LoadEstimate.fits (e : LoadEstimate) : Bool :=
  e.classification = .safe || e.classification = .warning

inductive Denial where
  | computerUnavailable
  | runtimeUnavailable
  | modelNotInstalled
  | modelIncompatible
  | resourceBusy
  | contextTooLarge
  | contextBelowTaskMinimum
  | unsupportedCapability
  | contextReloadRequired
  | insufficientMemory
  | estimateUnknown
  | policyDenied
  deriving DecidableEq

structure Victim where
  instanceId : String
  reclaimBytes : ℚ

inductive ContextReason where
  | machineResourceLimit
  | contextLimit
  deriving DecidableEq

structure ModelLoadPlan where
  instanceId : String
  requestedContext : Option JsNumber
  machineSafeContext : Option ℤ
  effectiveContext : ℚ
  minimumContext : ℤ
  contextReason : Option ContextReason
  estimate : LoadEstimate
  modelsToEvict : List Victim
  reuse : Bool
  reasons : List Denial

/-- `admissionDecision.status === 'ADMITTED'` -/
def ModelLoadPlan.admitted (plan : ModelLoadPlan) : Bool := plan.reasons = []

/-- What an estimate looks at: the instance, the limits, the machine and the answers of others. -/
structure LoadTarget where
  instance_ : ModelInstance
  computerHealthy : Bool
  /-- Healthy, with an adapter, and not hosted. -/
  runtimeHealthy : Bool
  /-- `installation.installed`, if there is an installation. -/
  installed : Option Bool
  compatible : Bool
  /-- `loadModel`, `inspectModel` and `probeModel` -/
  canLoad : Bool
  configuredContext : Option ℚ
  contextMax : ℚ
  profile : Option ModelProfile
  snapshot : ResourceSnapshot
  reservePercent : ℚ
  minimumReserveBytes : ℚ
  minimumContext : Option ℚ
  autoContext : Option ℚ
  /-- `adapter.estimateModelLoad`; `none` is an exception. -/
  estimateModelLoad : Option (ℤ → Option ModelLoadEstimate)
  /-- `unknownReservationBytes`, where unknown estimates are allowed -/
  unknownBound : Option ℚ
  policyAllows : ℤ → Option ℚ → Bool
  /-- `instanceOn(computerId)` -/
  residents : List ModelInstance
  /-- An operation is in progress on the instance. -/
  operating : String → Bool
  /-- Executions and queued assignments use it. -/
  active : ModelInstance → Bool
  evictAllowed : ModelInstance → Bool

namespace LoadTarget

variable (t : LoadTarget) (options : ModelLoadOptions)

def ofProfile {α : Type} (field : ModelProfile → Option α) : Option α := t.profile.bind field

/-- `minimum` -/
def minimum : ℚ :=
  max 1 (max (options.minimumContext.getD 0) (max (t.minimumContext.getD 4096)
    (max ((t.ofProfile (·.minimumContext)).getD 0) ((t.ofProfile (·.runtimeMinimumContext)).getD 0))))

/-- The limits that there are; a `contextMax` of zero is none. -/
def limits : List ℚ :=
  [t.configuredContext, some t.contextMax |>.filter (· ≠ 0), t.ofProfile (·.maximumContext),
    t.ofProfile (·.runtimeMaximumContext)].reduceOption

/-- `Math.min(a, limit)`; nothing stands for `Infinity`. -/
def capped (context : Option ℚ) : Option ℚ := (context.toList ++ t.limits).min?

def safeInteger (q : ℚ) : Option ℤ := (JsValue.num (.finite q)).safeInteger

/-- What is held by reservations. -/
def held (bytes : ResourceReservation → ℚ) : ℚ := (t.snapshot.activeReservations.map bytes).sum

def usable : Option ℚ :=
  t.snapshot.availableMemoryBytes.map fun available =>
    max 0 (available - max (available * t.reservePercent / 100) t.minimumReserveBytes -
      t.held (·.memoryBytes))

/-- What was told, or else what the profile tells. -/
def orProfile (context : ℤ) (told : ModelLoadEstimate) : ModelLoadEstimate :=
  match told.totalMemoryBytes, t.ofProfile (·.weightBytes), t.ofProfile (·.contextBytesPerToken),
    t.ofProfile (·.runtimeOverheadBytes) with
  | none, some weight, some perToken, some overhead =>
    ⟨some (weight + perToken * context + overhead), none, true⟩
  | _, _, _, _ => told

def answer (context : ℤ) : ModelLoadEstimate :=
  t.orProfile context ((t.estimateModelLoad.bind fun ask => ask context).getD ⟨none, none, false⟩)

/-- The model is ready with a context that will do; `context` is what would be loaded. -/
def reuse (context : ℤ) : Bool :=
  (t.instance_.state = some .ready || t.instance_.state = some .loaded) && t.instance_.loaded &&
    t.instance_.health = .healthy &&
    t.instance_.contextTokens.any fun tokens =>
      t.minimum options ≤ tokens && (options.context = none || tokens = context)

/-- What is told of a model that is loaded already. -/
def residentAnswer (context : ℤ) : ModelLoadEstimate :=
  let bytes := t.instance_.residentMemoryBytes.orElse fun _ => t.ofProfile (·.weightBytes)
  t.orProfile context ⟨bytes.filter (0 < ·), none, true⟩

/-- The estimate of a context from an answer of the adapter. -/
def judged (resident : Bool) (context : ℤ) (e : ModelLoadEstimate) : LoadEstimate :=
  let gpuUnknown := !t.snapshot.unifiedMemory && t.snapshot.totalVramBytes.isSome &&
    (e.vramBytes = none || t.snapshot.availableVramBytes = none)
  let gpuInsufficient := !t.snapshot.unifiedMemory && e.vramBytes.any fun vram =>
    t.snapshot.availableVramBytes.getD 0 - t.held (·.vramBytes) < vram
  { candidateContext := context
    estimatedTotalMemory := e.total
    estimatedVram := e.vramBytes
    reservationMemoryBytes := e.total.orElse fun _ => t.unknownBound.filter (0 < ·)
    usableMemory := t.usable
    classification :=
      if resident then .safe
      else match e.total, t.usable with
        | some total, some usable =>
          if gpuUnknown then .unknown
          else if usable < total || gpuInsufficient then .insufficient
          else if usable * (9 / 10) < total then .warning
          else .safe
        | _, _ => .unknown }

/-- The largest context that fits, by bisection. -/
def search (estimateAt : ℤ → LoadEstimate) (low high : ℤ) (best : Option LoadEstimate) :
    Option LoadEstimate :=
  if low ≤ high then
    let e := estimateAt ((low + high) / 2)
    if e.fits then search estimateAt ((low + high) / 2 + 1) high (some e)
    else search estimateAt low ((low + high) / 2 - 1) best
  else best
termination_by (high + 1 - low).toNat

/-- Why the model cannot be loaded as it is. -/
def loadDenials (estimate : LoadEstimate) : List Denial :=
  (if !t.canLoad then [Denial.unsupportedCapability] else []) ++
  (if t.instance_.loaded then [Denial.contextReloadRequired] else []) ++
  (if estimate.classification = .insufficient then [Denial.insufficientMemory] else []) ++
  (if estimate.classification = .unknown then
    match estimate.reservationMemoryBytes, t.usable with
    | some bytes, some usable =>
      if !t.snapshot.unifiedMemory && t.snapshot.totalVramBytes.isSome then [Denial.estimateUnknown]
      else if usable < bytes then [Denial.insufficientMemory]
      else []
    | _, _ => [Denial.estimateUnknown]
  else [])

/-! Eviction. -/

def candidates (instanceId : String) : List Victim :=
  t.residents.filterMap fun i =>
    if i.id = instanceId || !i.loaded || i.pinned || i.state ≠ some .ready || t.operating i.id ||
        t.active i || !t.evictAllowed i then none
    else (i.residentMemoryBytes.filter (· ≠ 0)).map fun bytes => ⟨i.id, bytes⟩

/-- The victims, from the first on, until the shortfall is covered. -/
def untilCovered (shortfall : ℚ) : ℚ → List Victim → List Victim
  | _, [] => []
  | sum, c :: rest =>
    if shortfall ≤ sum then untilCovered shortfall sum rest
    else c :: untilCovered shortfall (sum + c.reclaimBytes) rest

def reclaimed (victims : List Victim) : ℚ := (victims.map (·.reclaimBytes)).sum

/-- A single victim that suffices, else the largest first. -/
def selected (shortfall : ℚ) (candidates : List Victim) : List Victim :=
  match (sortBy (fun a b => compare a.reclaimBytes b.reclaimBytes)
      (candidates.filter fun c => shortfall ≤ c.reclaimBytes)).head? with
  | some one => [one]
  | none =>
    untilCovered shortfall 0 (sortBy (fun a b => compare b.reclaimBytes a.reclaimBytes) candidates)

/-- `planEviction`; without a total the shortfall is infinite. -/
def planEviction (plan : ModelLoadPlan) : ModelLoadPlan :=
  match plan.estimate.estimatedTotalMemory with
  | none => plan
  | some total =>
    let shortfall := total - plan.estimate.usableMemory.getD 0
    let victims := selected shortfall (t.candidates plan.instanceId)
    if reclaimed victims < shortfall then plan
    else { plan with
      modelsToEvict := victims
      reasons := plan.reasons.filter (· ≠ .insufficientMemory) }

/-- `requested ?? (mode === 'MAX_SAFE' ? limit : Math.max(minimum, autoContext ?? 32768))` -/
def desired (requested : Option ℤ) : Option ℚ :=
  match requested with
  | some n => some n
  | none =>
    if options.mode = some .maxSafe then t.limits.min?
    else some (max (t.minimum options) (t.autoContext.getD 32768))

/-- The request, if it is a positive safe integer. -/
def requestedContext : Except String (Option ℤ) :=
  match options.context with
  | none => .ok none
  | some n =>
    match (JsValue.num n).safeInteger with
    | some r => if 0 < r then .ok (some r) else .error "CONTEXT_TOO_LARGE: invalid context"
    | none => .error "CONTEXT_TOO_LARGE: invalid context"

def mode : ContextMode := options.mode.getD (if options.context.isSome then .explicit else .auto)

/-- What the machine, the runtime and the request say against it. -/
def targetDenials (requested : Option ℤ) (context : ℤ) : List Denial :=
  (if !t.computerHealthy then [Denial.computerUnavailable] else []) ++
  (if !t.runtimeHealthy then [Denial.runtimeUnavailable] else []) ++
  (if t.installed = some false then [Denial.modelNotInstalled] else []) ++
  (if !t.compatible then [Denial.modelIncompatible] else []) ++
  (if t.instance_.leaving then [Denial.resourceBusy] else []) ++
  (if (requested.any fun r => t.limits.any (· < r)) && !options.fit then [Denial.contextTooLarge] else []) ++
  (if (context : ℚ) < t.minimum options then [Denial.contextBelowTaskMinimum] else [])

/-- The estimate to go by, its context, and what is said to be safe on the machine. -/
def settle (minimum context : ℤ) : LoadEstimate × ℤ × Option ℤ :=
  let reuse := t.reuse options context
  let resident := reuse && !options.dryRun
  let estimateAt (c : ℤ) := t.judged resident c (if resident then t.residentAnswer c else t.answer c)
  let estimate := estimateAt context
  if !reuse && estimate.classification = .insufficient && minimum ≤ context then
    match search estimateAt minimum context none with
    | some best =>
      if mode options ≠ .explicit || options.fit then
        (best, best.candidateContext, some best.candidateContext)
      else (estimate, context, some best.candidateContext)
    | none => (estimate, context, none)
  else (estimate, context, if estimate.classification ≠ .unknown then some context else none)

/-- What is requested, the minimum, and the desired context within the limits. -/
def contexts : Except String (Option ℤ × ℤ × ℤ) := do
  let requested ← requestedContext options
  match safeInteger (t.minimum options), (t.capped (t.desired options requested)).bind safeInteger with
  | some minimum, some context => return (requested, minimum, context)
  | none, _ => .error "CONTEXT_TOO_LARGE: invalid context"
  | _, none => .error "CONTEXT_TOO_LARGE: model context limit unknown"

/-- The plan before any eviction. -/
def planFor (requested : Option ℤ) (minimum context : ℤ) : ModelLoadPlan :=
  let reuse := t.reuse options context
  let (estimate, settled, safeContext) := t.settle options minimum context
  { instanceId := t.instance_.id
    requestedContext := options.context
    machineSafeContext := safeContext
    effectiveContext := if reuse then t.instance_.contextTokens.getD 0 else settled
    minimumContext := minimum
    contextReason :=
      if (t.desired options requested).any ((settled : ℚ) < ·) then
        some (if settled < context then .machineResourceLimit else .contextLimit)
      else none
    estimate := estimate
    modelsToEvict := []
    reuse := reuse
    reasons := t.targetDenials options requested context ++
      (if reuse then [] else t.loadDenials estimate) ++
      (if t.policyAllows settled estimate.estimatedTotalMemory then [] else [.policyDenied]) }

/-- `estimateTarget` -/
def estimateTarget : Except String ModelLoadPlan := do
  let (requested, minimum, context) ← t.contexts options
  let plan := t.planFor options requested minimum context
  return if options.evict && .insufficientMemory ∈ plan.reasons then t.planEviction plan else plan

end LoadTarget

end Wazir.Models
