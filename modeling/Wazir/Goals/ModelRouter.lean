import Wazir.Core.ModelReliability
import Wazir.Shared.Reload
import Wazir.Shared.UriComponent

/-! What the model router keeps of routed work (`routing/modelRouter.ts`): `recordOutcome`, the
accounting, and `hydrate` of a router that starts on what another one stored. The readiness of
instances is left out. -/

namespace Wazir.Goals.Routing

open Wazir.Core JsValue

/-- `string | GoalStudioError` -/
inductive RouteError where
  | text (message : String)
  | failure (code message : String)

def errorMessage : RouteError → String
  | .text message => message
  | .failure code message => code ++ ": " ++ message

structure ModelRouteDecision where
  modelId : String
  instanceId : Option String
  runtimeId : String
  computerId : Option String
  hosted : Bool
  estimatedCostUsd : Option JsNumber
  estimatedLatencyMs : Option JsNumber

structure RouteOutcomeInput where
  decision : ModelRouteDecision
  ok : Bool
  latencyMs : Option JsNumber
  actualCostUsd : Option JsNumber
  error : Option RouteError
  terminationReason : Option String
  modelAttributable : Bool
  taskClass : Option String
  runId : Option String
  targetId : Option String
  attemptId : Option String

structure RouteOutcomeRecord where
  seq : ℕ
  modelId : String
  instanceId : Option String
  runtimeId : String
  computerId : Option String
  hosted : Bool
  ok : Bool
  attributable : Bool
  taskClass : String
  estimatedCostUsd : JsNumber
  actualCostUsd : JsNumber
  estimatedLatencyMs : Option JsNumber
  actualLatencyMs : JsNumber
  error : Option String
  terminationReason : Option String
  runId : Option String
  targetId : Option String
  attemptId : Option String
  recordedAt : String

def optional (s : Option String) : JsValue := (s.map JsValue.str).getD .undefined

def optionalNumber (n : Option JsNumber) : JsValue := (n.map JsValue.num).getD .undefined

/-- The members of the record's object. -/
def RouteOutcomeRecord.fields (r : RouteOutcomeRecord) : List (String × JsValue) :=
  [("seq", .nat r.seq), ("modelId", .str r.modelId), ("instanceId", optional r.instanceId),
    ("runtimeId", .str r.runtimeId), ("computerId", optional r.computerId),
    ("hosted", .bool r.hosted), ("ok", .bool r.ok), ("attributable", .bool r.attributable),
    ("taskClass", .str r.taskClass), ("estimatedCostUsd", .num r.estimatedCostUsd),
    ("actualCostUsd", .num r.actualCostUsd),
    ("estimatedLatencyMs", optionalNumber r.estimatedLatencyMs),
    ("actualLatencyMs", .num r.actualLatencyMs), ("error", optional r.error),
    ("terminationReason", optional r.terminationReason), ("runId", optional r.runId),
    ("targetId", optional r.targetId), ("attemptId", optional r.attemptId),
    ("recordedAt", .str r.recordedAt)]

def RouteOutcomeRecord.toJs (r : RouteOutcomeRecord) : JsValue := .obj r.fields

/-- `Math.max(0, Math.round(n))` -/
def wholeMs : JsNumber → JsNumber
  | .finite q => .finite (max 0 ⌊q + 1 / 2⌋ : ℤ)
  | .nan => .nan
  | .infinite negative => if negative then .finite 0 else .infinite false

/-- What the router is given and what it uses of the language. -/
structure RouterDeps where
  taskClass : String
  options : ModelReliabilityOptions
  localeCompare : String → String → Ordering
  /-- `new Date(text)` -/
  parseDate : String → JsDate

/-- The router's own state. -/
structure Router where
  outcomesList : List JsValue
  seq : ℕ
  reliability : ModelReliabilityTracker

def Router.fresh : Router := ⟨[], 0, .fresh⟩

/-- The entries of the store under the prefix of outcomes. -/
abbrev Stored := List (String × JsValue)

def Stored.put (stored : Stored) (key : String) (value : JsValue) : Stored :=
  if key ∈ stored.map Prod.fst then
    stored.map fun kv => if kv.1 = key then (key, value) else kv
  else stored ++ [(key, value)]

def outcomeKey (modelId : String) (seq : ℕ) (recordedAt : String) : String :=
  "goals/routing/outcomes/" ++ encodeURIComponent modelId ++ "/" ++ recordedAt ++ "-" ++
    padded 8 seq

/-- One call, with the time on the clock. -/
structure Call where
  input : RouteOutcomeInput
  now : Timestamp

namespace RouterDeps

variable (deps : RouterDeps)

/-- What an outcome tells the circuit breaker, and whether it was attributable. -/
def feedback (t : ModelReliabilityTracker) (input : RouteOutcomeInput) (now : Timestamp) :
    ModelReliabilityTracker × Bool :=
  let modelId := input.decision.modelId
  let taskClass := input.taskClass.getD deps.taskClass
  match input.terminationReason.filter (· ≠ "") with
  | some reason => t.recordTermination deps.options modelId taskClass reason (some now)
  | none =>
    if input.ok then
      (t.record deps.options ⟨modelId, taskClass, true, some "COMPLETED", some now⟩, true)
    else if input.modelAttributable then
      (t.record deps.options ⟨modelId, taskClass, false,
        some ((input.error.map errorMessage).getD "model failure"), some now⟩, true)
    else (t, false)

def outcomeRecord (input : RouteOutcomeInput) (now : Timestamp) (seq : ℕ) (attributable : Bool) :
    RouteOutcomeRecord where
  seq := seq
  modelId := input.decision.modelId
  instanceId := input.decision.instanceId
  runtimeId := input.decision.runtimeId
  computerId := input.decision.computerId
  hosted := input.decision.hosted
  ok := input.ok
  attributable := attributable
  taskClass := input.taskClass.getD deps.taskClass
  estimatedCostUsd := input.decision.estimatedCostUsd.getD (.finite 0)
  actualCostUsd :=
    match input.actualCostUsd with
    | some (.finite q) => .finite q
    | _ => if input.decision.hosted then input.decision.estimatedCostUsd.getD (.finite 0)
        else .finite 0
  estimatedLatencyMs := input.decision.estimatedLatencyMs
  actualLatencyMs := wholeMs (input.latencyMs.getD (.finite 0))
  error := input.error.map errorMessage
  terminationReason := input.terminationReason
  runId := input.runId
  targetId := input.targetId
  attemptId := input.attemptId
  recordedAt := isoText now

def recordOutcome (state : Router × Stored) (call : Call) : Router × Stored :=
  let (router, stored) := state
  let (reliability, attributable) := deps.feedback router.reliability call.input call.now
  let record := deps.outcomeRecord call.input call.now (router.seq + 1) attributable
  (⟨router.outcomesList ++ [record.toJs], record.seq, reliability⟩,
    stored.put (outcomeKey record.modelId record.seq record.recordedAt) record.toJs)

/-! A router that starts on what was stored. -/

def seqOf (o : JsValue) : ℕ := ((o.get "seq").finiteNumber.getD 0).num.toNat

def recordedAtOf (o : JsValue) : String := (o.get "recordedAt").string.getD ""

def isOutcome (o : JsValue) : Bool :=
  o.truthy && (o.get "modelId").string.isSome && (o.get "recordedAt").string.isSome

def compareOutcomes (a b : JsValue) : Ordering :=
  (deps.localeCompare (recordedAtOf a) (recordedAtOf b)).then (compare (seqOf a) (seqOf b))

/-- A stored outcome is fed to the circuit breaker again. -/
def replay (t : ModelReliabilityTracker) (o : JsValue) : ModelReliabilityTracker :=
  let modelId := (o.get "modelId").template
  let taskClass := (o.get "taskClass").template
  let now := deps.parseDate (recordedAtOf o)
  if !(o.get "attributable").truthy then t
  else if (o.get "terminationReason").truthy then
    (t.recordTermination deps.options modelId taskClass
      ((o.get "terminationReason").string.getD "") now).1
  else t.record deps.options
    ⟨modelId, taskClass, (o.get "ok").truthy, (o.get "error").string, now⟩

/-- `hydrate`, with the values that the store lists. -/
def hydrate (router : Router) (values : List JsValue) : Router :=
  let outcomes := sortBy deps.compareOutcomes (values.filter isOutcome)
  ⟨outcomes ++ router.outcomesList, (outcomes.map seqOf).foldl max router.seq,
    outcomes.foldl deps.replay router.reliability⟩

end RouterDeps

/-! The accounting. -/

/-- The roundings that the accounting makes: `round2` of a share, `round6` of a sum, and the whole
milliseconds of an average. -/
structure Roundings where
  share : ℕ → ℕ → JsNumber
  total : List JsValue → JsNumber
  average : List JsValue → JsNumber

structure ModelAccounting where
  modelId : String
  routes : ℕ
  successes : ℕ
  failures : ℕ
  attributableSamples : ℕ
  attributableSuccessRate : Option JsNumber
  estimatedCostUsd : JsNumber
  actualCostUsd : JsNumber
  avgEstimatedLatencyMs : Option JsNumber
  avgActualLatencyMs : Option JsNumber
  lastOutcomeAt : Option JsValue

def accountingFor (roundings : Roundings) (outcomesList : List JsValue) (modelId : String) :
    ModelAccounting :=
  let all := outcomesList.filter fun o => (o.get "modelId").string = some modelId
  let attributable := all.filter fun o => (o.get "attributable").truthy
  let est := all.filter fun o => !(o.get "estimatedLatencyMs").isUndefined
  { modelId := modelId
    routes := all.length
    successes := (all.filter fun o => (o.get "ok").truthy).length
    failures := (all.filter fun o => !(o.get "ok").truthy).length
    attributableSamples := attributable.length
    attributableSuccessRate :=
      if attributable.length = 0 then none
      else some (roundings.share (attributable.filter fun o => (o.get "ok").truthy).length
        attributable.length)
    estimatedCostUsd := roundings.total (all.map (·.get "estimatedCostUsd"))
    actualCostUsd := roundings.total (all.map (·.get "actualCostUsd"))
    avgEstimatedLatencyMs :=
      if est.length = 0 then none
      else some (roundings.average (est.map (·.get "estimatedLatencyMs")))
    avgActualLatencyMs :=
      if all.length = 0 then none
      else some (roundings.average (all.map (·.get "actualLatencyMs")))
    lastOutcomeAt := (all.map (·.get "recordedAt")).getLast? }

def accounting (roundings : Roundings) (registered : List String) (outcomesList : List JsValue) :
    List ModelAccounting :=
  let ids := (registered ++ outcomesList.filterMap fun o => (o.get "modelId").string).dedup
  (sortBy compareStrings ids).map (accountingFor roundings outcomesList)

end Wazir.Goals.Routing
