import Wazir.Core.ModelReliability
import Wazir.Goals.Capabilities

/-! How the model router decides (`routing/modelRouter.ts`): the hard rules and the score of one
instance, the best instance of a model, and the winner. Amounts are exact numbers. What the router
explains about the candidates that it rejects is left out, their rejections apart. -/

namespace Wazir.Goals.Fleet

open Wazir.Core

structure RuntimeRecord where
  id : String
  type : String
  runtimeKind : Option String
  health : HealthLevel

structure Computer where
  id : String
  status : String
  health : HealthLevel
  cpuPercent : Option JsNumber
  isLocal : Bool

structure ResourceReservation where
  settled : Bool
  memoryBytes : ℚ

structure ResourceSnapshot where
  availableMemoryBytes : Option ℚ
  activeReservations : List ResourceReservation

structure ComputerRegistry where
  get : String → Option Computer
  resourceSnapshot : String → Except String ResourceSnapshot

structure Pricing where
  inputPerMTok : JsNumber
  outputPerMTok : JsNumber

structure RouteOutcome where
  modelId : String
  ok : Bool
  attributable : Bool
  actualLatencyMs : ℚ

/-- The records and instances, in the order of their registration. -/
structure ModelRegistry where
  records : List ModelRecord
  instances : List ModelInstance
  recordIds : (records.map ModelRecord.id).Nodup
  instanceIds : (instances.map ModelInstance.id).Nodup

namespace ModelRegistry

variable (localeCompare : String → String → Ordering) (models : ModelRegistry)

def list : List ModelRecord :=
  sortBy (fun a b => localeCompare a.id b.id) models.records

def instancesOf (modelId : String) : List ModelInstance :=
  sortBy (fun a b => localeCompare a.id b.id) (models.instances.filter (·.modelId = modelId))

end ModelRegistry

/-- What the router is given, and what it finds when it decides. -/
structure RouterDeps where
  language : Language
  runtimes : Option (String → Option RuntimeRecord)
  computers : Option ComputerRegistry
  reliability : ModelReliabilityTracker
  options : ModelReliabilityOptions
  readiness : String → String → Option ReadinessRecord
  ttlMs : ℤ
  parseDate : String → JsDate
  now : Timestamp
  pricing : Option (String → String → Option Pricing)
  inputTokens : ℚ
  outputTokens : ℚ
  taskClass : String
  outcomes : List RouteOutcome

structure RouteInput where
  requiredCapabilities : List String
  remainingHostedBudgetUsd : JsNumber
  localFirst : Option Bool
  excludeModelIds : Option (List String)

structure RouteRequest where
  requiredCapabilities : List String
  remainingHostedBudgetUsd : ℚ
  localFirst : Bool
  excludeModelIds : List String

def RouteInput.request (input : RouteInput) : RouteRequest where
  requiredCapabilities := input.requiredCapabilities
  remainingHostedBudgetUsd :=
    match input.remainingHostedBudgetUsd with
    | .finite q => max 0 q
    | _ => 0
  localFirst := input.localFirst.getD true
  excludeModelIds := input.excludeModelIds.getD []

/-- An instance that no hard rule rejects. -/
structure Candidate where
  instance' : ModelInstance
  hosted : Bool
  tier : ℕ
  score : ℚ
  reasons : List String
  estimatedCostUsd : ℚ
  estimatedLatencyMs : Option ℚ
  readiness : ReadinessRecord

structure ModelEval where
  record : ModelRecord
  best : Option Candidate
  rejection : Option String

structure Rejected where
  modelId : String
  reason : String
  deriving DecidableEq

structure RouteReadiness where
  checkedAt : String
  latencyMs : Option ℚ
  source : String

structure GoalModelRouteDecision where
  modelId : String
  runtimeId : String
  computerId : Option String
  hosted : Bool
  estimatedCostUsd : ℚ
  reasons : List String
  rejected : List Rejected
  decidedAt : String
  instanceId : String
  score : ℚ
  estimatedLatencyMs : Option ℚ
  readiness : RouteReadiness

def unservableStates : List ModelLifecycleState := [.draining, .unloading, .unavailable, .loading]

def ModelLifecycleState.lower : ModelLifecycleState → String
  | .discovered => "discovered"
  | .installed => "installed"
  | .loading => "loading"
  | .loaded => "loaded"
  | .ready => "ready"
  | .draining => "draining"
  | .unloaded => "unloaded"
  | .unloading => "unloading"
  | .failed => "failed"
  | .unavailable => "unavailable"

def hostedRuntimeTypes : List String := ["anthropic", "openai", "google", "nvidia"]

def minHistory : ℕ := 3

def outcomeWindow : ℕ := 20

/-- `Math.round(q)` -/
def round (q : ℚ) : ℤ := ⌊q + 1 / 2⌋

def round2 (q : ℚ) : ℚ := round (q * 100) / 100

def round6 (q : ℚ) : ℚ := round (q * 1000000) / 1000000

/-- A text that is there and not empty. -/
def truthy (s : Option String) : Option String := s.filter (· ≠ "")

def Pricing.valid (p : Pricing) : Option (ℚ × ℚ) :=
  match p.inputPerMTok, p.outputPerMTok with
  | .finite input, .finite output => if 0 ≤ input ∧ 0 ≤ output then some (input, output) else none
  | _, _ => none

/-- `/qwen/i.test(id)` -/
def namesQwen (id : String) : Bool :=
  id.toList.tails.any fun rest => "qwen".toList.isPrefixOf (rest.map Char.toLower)

namespace RouterDeps

variable (deps : RouterDeps)

def runtime (instance' : ModelInstance) : Option RuntimeRecord :=
  deps.runtimes.bind (· instance'.runtimeId)

def computer (instance' : ModelInstance) : Option Computer :=
  (truthy instance'.computerId).bind fun id => deps.computers.bind (·.get id)

/-- Conservative: without a computer, on a hosted runtime, or a model that is not local. -/
def isHostedInstance (record : ModelRecord) (instance' : ModelInstance) : Bool :=
  let runtime := deps.runtime instance'
  (truthy instance'.computerId).isNone ||
    runtime.any (fun r => r.runtimeKind = some "hosted") ||
    runtime.any (fun r => r.type ∈ hostedRuntimeTypes) ||
    runtime.isNone && deps.language.toLowerCase instance'.runtimeId ∈ hostedRuntimeTypes ||
    !record.isLocal ||
    record.runtimeCompatibility.any fun types =>
      0 < types.length && types.all (· ∈ hostedRuntimeTypes)

def circuit (record : ModelRecord) : CircuitStatus :=
  deps.reliability.status deps.options record.id deps.taskClass deps.now

/-- The age of an observation in milliseconds. -/
def age (readiness : ReadinessRecord) : Option ℤ :=
  (deps.parseDate readiness.checkedAt).map fun checkedAt => deps.now.1 - checkedAt.1

def isFresh (readiness : ReadinessRecord) : Bool :=
  readiness.ready && (deps.age readiness).any fun age => 0 ≤ age && age ≤ deps.ttlMs

section Rules

variable (req : CapabilityRequirements) (request : RouteRequest) (record : ModelRecord)
  (instance' : ModelInstance)

/-- Rule 2: the instance is servable. -/
def servable : Except String Unit := do
  let runtime := deps.runtime instance'
  rejectWhen (instance'.state.any (· ∈ unservableStates))
    ("instance " ++ (instance'.state.map ModelLifecycleState.lower).getD "undefined")
  rejectWhen (instance'.health = .unavailable)
    ("instance unavailable" ++ ((truthy instance'.error).map (": " ++ ·)).getD "")
  rejectWhen (runtime.any (·.health = .unavailable))
    ("runtime '" ++ (runtime.map (·.id)).getD "" ++ "' unavailable")
  rejectWhen (deps.isHostedInstance record instance' && runtime.isNone && deps.runtimes.isSome)
    ("hosted runtime '" ++ instance'.runtimeId ++ "' is not registered")

/-- Rule 2: the computer that the instance names is online. -/
def computerOnline : Except String Unit :=
  match truthy instance'.computerId, deps.computers with
  | some id, some computers =>
    match computers.get id with
    | none => .error ("computer '" ++ id ++ "' is not registered")
    | some computer => do
      rejectWhen (computer.status ≠ "online")
        ("computer '" ++ computer.id ++ "' is " ++ computer.status)
      rejectWhen (computer.health = .unavailable)
        ("computer '" ++ computer.id ++ "' health unavailable")
  | _, _ => .ok ()

/-- Rule 3: a fresh successful observation. -/
def verifiedReady : Except String ReadinessRecord :=
  match deps.readiness record.id instance'.id with
  | none =>
    .error (if deps.isHostedInstance record instance' then
        "not verified ready: hosted model has no successful execution evidence " ++
          "(hosted models are never probed)"
      else "not verified ready: never probed")
  | some readiness => do
    rejectWhen (!readiness.ready) ("not verified ready: " ++ readiness.reason)
    let seconds := (deps.age readiness).map fun ms => round ((ms : ℚ) / 1000)
    rejectWhen (!deps.isFresh readiness)
      ("not verified ready: last verification " ++ (seconds.map toString).getD "NaN" ++
        "s ago exceeds TTL " ++ toString (round ((deps.ttlMs : ℚ) / 1000)) ++ "s")
    return readiness

/-- Rule 5: the estimated cost, which the remaining budget covers. -/
def hostedSpend : Except String (ℚ × String) :=
  let budget := request.remainingHostedBudgetUsd
  let show' := deps.language.showNumber
  if deps.isHostedInstance record instance' then do
    rejectWhen (budget ≤ 0) "hosted inference denied: remaining hosted budget is $0"
    match (deps.pricing.bind (· record.id instance'.runtimeId)).bind Pricing.valid with
    | none => throw "hosted model has no known pricing; spend cannot be bounded"
    | some (input, output) =>
      let cost := round6 ((deps.inputTokens * input + deps.outputTokens * output) / 1000000)
      rejectWhen (budget < cost)
        ("estimated cost $" ++ show' cost ++ " exceeds remaining hosted budget $" ++ show' budget)
      return (cost, "hosted: estimated $" ++ show' cost ++ " within remaining budget $" ++ show' budget)
  else return (0, "local inference: $0")

/-- Rule 7: a local model that is not resident fits the computer's memory. -/
def fits : Except String (List String) :=
  match deps.computer instance', deps.computers, record.minSystemGB.filter (· ≠ 0) with
  | some computer, some computers, some needed =>
    if deps.isHostedInstance record instance' || instance'.loaded then .ok []
    else
      match computers.resourceSnapshot computer.id with
      | .error message => .ok ["resources: snapshot unavailable (" ++ message ++ ")"]
      | .ok snap =>
        let held := ((snap.activeReservations.filter (!·.settled)).map (·.memoryBytes)).sum
        match snap.availableMemoryBytes with
        | none => .ok []
        | some available =>
          let availGB := (available - held) / 1024 ^ 3
          let text := deps.language.toFixed1 availGB
          let needs := deps.language.showNumber needed
          if availGB < needed then
            .error ("resources: " ++ computer.id ++ " has " ++ text ++ "GB available < " ++ needs ++
              "GB needed to load")
          else .ok ["resources: " ++ text ++ "GB available >= " ++ needs ++ "GB to load"]
  | _, _, _ => .ok []

end Rules

section Score

variable (req : CapabilityRequirements) (request : RouteRequest) (record : ModelRecord)
  (instance' : ModelInstance)

def lastOutcomes (keep : RouteOutcome → Bool) : List RouteOutcome :=
  let all := deps.outcomes.filter fun o => o.modelId = record.id && keep o
  all.drop (all.length - outcomeWindow)

def estimatedLatency (readiness : ReadinessRecord) : Option ℚ :=
  let recent := deps.lastOutcomes record (·.ok)
  if 0 < recent.length then
    some (round ((recent.map (·.actualLatencyMs)).sum / recent.length))
  else readiness.latencyMs

/-- What a term adds to the score, and its reason. -/
abbrev Term := ℚ × String

def residency : Term :=
  if instance'.loaded && instance'.state = some .ready then (20, "resident and READY (+20)")
  else if instance'.loaded then (10, "loaded (+10)")
  else (-5, "not resident: cold load expected (-5)")

def measured : Term :=
  let history := deps.lastOutcomes record (·.attributable)
  if minHistory ≤ history.length then
    let rate : ℚ := (history.filter (·.ok)).length / history.length
    let bonus := round (rate * 30)
    (bonus, "measured success " ++ toString (round (rate * 100)) ++ "% over " ++
      toString history.length ++ " routed runs (+" ++ toString bonus ++ ")")
  else (0, "reliability: " ++ toString history.length ++ " routed run(s), neutral")

def evidence : List Term :=
  ((record.performance.lookup deps.taskClass).filter (minHistory ≤ ·.samples)).toList.map fun perf =>
    let bonus := round (perf.verifiedSuccessRate * 10)
    (bonus, "execution evidence: " ++ toString (round (perf.verifiedSuccessRate * 100)) ++
      "% verified over " ++ toString perf.samples ++ " runs (+" ++ toString bonus ++ ")")

def computerTerms (computer : Computer) : List Term :=
  (match computer.cpuPercent with
    | some (.finite cpu) =>
      let penalty := round2 (min 5 (max 0 cpu / 20))
      [(-penalty, "computer CPU " ++ toString (round cpu) ++ "% (-" ++
        deps.language.showNumber penalty ++ ")")]
    | _ => []) ++
  (if computer.health = .degraded then [(-5, "computer degraded (-5)")] else []) ++
  if computer.isLocal then [(1, "control-plane host (+1)")] else []

def terms (readiness : ReadinessRecord) (cost : ℚ) : List Term :=
  let hosted := deps.isHostedInstance record instance'
  let circuit := deps.circuit record
  let show' := deps.language.showNumber
  [residency instance'] ++
  (if !hosted && (record.family = "qwen" || namesQwen record.id) then
    [(3, "local Qwen coding model preference (+3)")] else []) ++
  [deps.measured record] ++ deps.evidence record ++
  (if circuit.state = .halfOpen then [(-10, "reliability: " ++ circuit.reason ++ " (-10)")]
    else []) ++
  (deps.estimatedLatency record readiness).toList.map (fun latency =>
    let penalty := round2 (min 20 (latency / 500))
    (-penalty, "estimated latency " ++ show' latency ++ "ms (-" ++ show' penalty ++ ")")) ++
  (if 0 < req.minContextTokens && req.minContextTokens * 2 ≤ instanceContextTokens record instance'
    then [(2, "context headroom >= 2x requirement (+2)")] else []) ++
  (deps.computer instance').toList.flatMap deps.computerTerms ++
  (if hosted && 0 < cost then
    let penalty := round2 (min 20 (cost * 100))
    [(-penalty, "cost penalty (-" ++ show' penalty ++ ")")] else []) ++
  if request.localFirst then
    [(0, if hosted then "local-first: hosted ranks after every eligible local model"
      else "local-first: local model preferred")] else []

/-- The hard rules in turn, and the score. -/
def evaluateInstance : Except String Candidate := do
  let hosted := deps.isHostedInstance record instance'
  deps.servable record instance'
  deps.computerOnline instance'
  rejectWhen (req.localOnly && hosted) "capability \"local\" requires a local instance"
  let readiness ← deps.verifiedReady record instance'
  let caps ← checkCapabilities deps.language req record instance' readiness
  let (cost, spend) ← deps.hostedSpend request record instance'
  rejectWhen ((deps.circuit record).state = .opened) ("reliability: " ++ (deps.circuit record).reason)
  let fit ← deps.fits record instance'
  let terms := deps.terms req request record instance' readiness cost
  let latency := (readiness.latencyMs.map fun ms =>
    " (" ++ deps.language.showNumber ms ++ "ms)").getD ""
  return {
    instance' := instance'
    hosted := hosted
    tier := if request.localFirst && hosted then 1 else 0
    score := round2 (terms.map Prod.fst).sum
    reasons := ["verified ready by " ++ readiness.source ++ " at " ++ readiness.checkedAt ++ latency] ++
      caps ++ [spend] ++ fit ++ terms.map Prod.snd
    estimatedCostUsd := cost
    estimatedLatencyMs := deps.estimatedLatency record readiness
    readiness := readiness }

end Score

section Choice

variable (models : ModelRegistry)

def compareInstance (a b : Candidate) : Ordering :=
  (compare a.tier b.tier).then <| (compare b.score a.score).then <|
    deps.language.localeCompare a.instance'.id b.instance'.id

def evaluateModel (req : CapabilityRequirements) (request : RouteRequest) (record : ModelRecord) :
    ModelEval :=
  if record.id ∈ request.excludeModelIds then
    ⟨record, none, some "excluded by caller (already tried or explicitly excluded)"⟩
  else
    let instances := models.instancesOf deps.language.localeCompare record.id
    if instances.length = 0 then ⟨record, none, some "no instance on any runtime"⟩
    else
      let evals := instances.map fun i => (i, deps.evaluateInstance req request record i)
      let ok := sortBy deps.compareInstance (evals.filterMap fun e => e.2.toOption)
      match ok with
      | best :: _ => ⟨record, some best, none⟩
      | [] =>
        let rejections := evals.filterMap fun e => match e.2 with
          | .error why => some (e.1, why)
          | .ok _ => none
        ⟨record, none, match rejections with
          | [e] => some e.2
          | _ => some (String.intercalate "; " (rejections.map fun e => e.1.id ++ ": " ++ e.2))⟩

/-- The models with an eligible instance, the best first. -/
def ranked (evals : List ModelEval) : List (ModelRecord × Candidate) :=
  sortBy (fun a b => (deps.compareInstance a.2 b.2).then
      (deps.language.localeCompare a.1.id b.1.id))
    (evals.filterMap fun e => e.best.map fun best => (e.record, best))

def outranked (winner : ModelRecord × Candidate) (best : Candidate) : String :=
  let show' := deps.language.showNumber
  if winner.2.tier = best.tier ∧ winner.2.score = best.score then
    "outranked: tie at score " ++ show' winner.2.score ++ ", '" ++ winner.1.id ++
      "' wins lexicographically"
  else if winner.2.tier < best.tier then
    "outranked: local-first policy prefers local model '" ++ winner.1.id ++ "'"
  else
    "outranked: score " ++ show' best.score ++ " < " ++ show' winner.2.score ++ " of '" ++
      winner.1.id ++ "'"

def rejectedOf (winner : ModelRecord × Candidate) (e : ModelEval) : Rejected where
  modelId := e.record.id
  reason := match e.best with
    | some best => deps.outranked winner best
    | none => e.rejection.getD "not eligible"

def route (input : RouteInput) : Option GoalModelRouteDecision :=
  let request := input.request
  let req := parseCapabilities deps.language request.requiredCapabilities
  let evals := (models.list deps.language.localeCompare).map (deps.evaluateModel models req request)
  let eligible := deps.ranked evals
  eligible.head?.map fun winner =>
    let (record, b) := winner
    let via := b.instance'.runtimeId ++ ((truthy b.instance'.computerId).map (" on " ++ ·)).getD ""
    let sorted := sortBy (fun a b => deps.language.localeCompare a.record.id b.record.id) evals
    { modelId := record.id
      runtimeId := b.instance'.runtimeId
      computerId := b.instance'.computerId
      hosted := b.hosted
      estimatedCostUsd := b.estimatedCostUsd
      reasons := ["selected '" ++ record.id ++ "' via " ++ via ++ " (score " ++
          deps.language.showNumber b.score ++ (if request.localFirst then ", local-first" else "") ++
          ")"] ++
        b.reasons ++
        [toString eligible.length ++ " eligible of " ++ toString evals.length ++
          " registered model(s)"]
      rejected := (sorted.filter (·.record.id ≠ record.id)).map (deps.rejectedOf winner)
      decidedAt := isoText deps.now
      instanceId := b.instance'.id
      score := b.score
      estimatedLatencyMs := b.estimatedLatencyMs
      readiness := ⟨b.readiness.checkedAt, b.readiness.latencyMs, b.readiness.source⟩ }

end Choice

end RouterDeps

end Wazir.Goals.Fleet
