import Wazir.Async.Machine
import Wazir.Harness.Attempts
import Wazir.Shared.JsArithmetic

/-! The attempts of `dispatch` (`services/harnessDispatchService.ts`) with what they may spend and with
the resolution of their harnesses. -/

namespace Wazir.Harness

/-- What a resume context says of the attempts before the dispatch. -/
structure AgentResumeContext where
  tokens : JsNumber
  toolCalls : JsNumber

structure DispatchRequest extends UnifiedExecutionRequest where
  harnessPreference : Option String
  modelPreference : Option String
  maxTokens : Option JsNumber
  maxToolCalls : Option JsNumber
  maxCostUSD : Option JsNumber
  maxDurationMs : Option JsNumber
  resumeContext : Option AgentResumeContext

/-! The resolution of a harness. -/

structure HarnessDescriptor where
  harnessId : String
  isNative : Bool

/-- What `evaluateCandidateEligibility` says of a harness. -/
inductive Eligibility where
  | eligible
  | ineligible (policy : Bool)
  deriving DecidableEq

/-- What the scheduler's plan comes to: `rejected` tells whether the message names a policy. -/
inductive PlanAnswer where
  | noScheduler
  | planned
  | rejected (namesPolicy : Bool)
  | threw

inductive HarnessResolutionCode where
  | policyDenied
  | noHarnessesRegistered
  | pinnedHarnessNotFound
  | pinnedHarnessExhausted
  | pinnedHarnessIneligible
  | noEligibleHarness
  | schedulerRejected
  | schedulerFailed
  deriving DecidableEq

/-- What a resolution finds around it. -/
structure ResolutionWorld where
  taskDenied : Bool
  harnesses : List HarnessDescriptor
  localeCompare : String → String → Ordering
  eligibility : String → Eligibility
  policy : Option RoutingPolicyConfig
  plan : String → PlanAnswer

namespace ResolutionWorld

variable (w : ResolutionWorld)

/-- The order of `listHarnesses`. -/
def compare (a b : HarnessDescriptor) : Ordering :=
  if a.isNative && !b.isNative then .lt
  else if !a.isNative && b.isNative then .gt
  else w.localeCompare a.harnessId b.harnessId

def listHarnesses : List HarnessDescriptor := sortBy w.compare w.harnesses

/-- The pinned harness where it can be used, or why the resolution fails over it. -/
def pinned (request : DispatchRequest) (excluded : List String) (allowFallback : Bool) :
    Except HarnessResolutionCode (Option String) :=
  match request.harnessPreference.filter (· ≠ "") with
  | none => .ok none
  | some id =>
    if !w.harnesses.any (·.harnessId = id) then
      if allowFallback then .ok none else .error .pinnedHarnessNotFound
    else if id ∈ excluded then
      if allowFallback then .ok none else .error .pinnedHarnessExhausted
    else
      match w.eligibility id with
      | .eligible => .ok (some id)
      | .ineligible policy =>
        if !allowFallback || policy then
          .error (if policy then .policyDenied else .pinnedHarnessIneligible)
        else .ok none

def isProviderOnly (request : DispatchRequest) : Bool :=
  let mode := (request.policyContext.get "routingMode").string.map String.toLower
  w.policy.any (·.providerOnly) || mode = some "provider_only" || mode = some "nvidia"

/-- `resolveHarness`, with the id of the harness. -/
def resolveHarness (request : DispatchRequest) (excluded : List String) :
    Except HarnessResolutionCode String :=
  if w.taskDenied then .error .policyDenied
  else if w.harnesses.isEmpty then .error .noHarnessesRegistered
  else
    let allowFallback := !request.isStrictUserPin && request.providerAllowsFallback w.policy
    let ordered := (w.listHarnesses.map (·.harnessId)).filter (· ∉ excluded)
    match w.pinned request excluded allowFallback with
    | .error code => .error code
    | .ok pinned =>
      match pinned.or (ordered.find? fun id => w.eligibility id = .eligible) with
      | none =>
        .error (if ordered.any fun id => w.eligibility id = .ineligible true then .policyDenied
          else .noEligibleHarness)
      | some id =>
        match w.plan id with
        | .noScheduler | .planned => .ok id
        | .rejected namesPolicy =>
          if w.isProviderOnly request || request.modelPreference.any (· ≠ "") || namesPolicy then
            .error .schedulerRejected
          else .ok id
        | .threw => .error .schedulerFailed

theorem pinned_fresh {request : DispatchRequest} {excluded : List String} {allowFallback : Bool}
    {id : String} (h : w.pinned request excluded allowFallback = .ok (some id)) :
    id ∉ excluded := by
  unfold pinned at h
  split at h
  · cases h
  · split_ifs at h with hregistered hallow hexcluded hallow'
    · cases h
    · cases h
    · split at h
      · obtain rfl := Option.some.inj (Except.ok.inj h)
        exact hexcluded
      · split_ifs at h
        cases h

/-- A harness that was tried is not resolved again. -/
theorem resolveHarness_fresh {request : DispatchRequest} {excluded : List String} {id : String}
    (h : w.resolveHarness request excluded = .ok id) : id ∉ excluded := by
  unfold resolveHarness at h
  split_ifs at h
  dsimp only at h
  split at h
  · cases h
  · next pinned hpinned =>
    split at h
    · cases h
    · next chosen hchosen =>
      have hfresh : chosen ∉ excluded := by
        rcases Option.or_eq_some_iff.mp hchosen with hpin | ⟨-, hfound⟩
        · exact w.pinned_fresh (hpin ▸ hpinned)
        · simpa using (List.mem_filter.mp (List.mem_of_find?_eq_some hfound)).2
      split at h
      · obtain rfl := Except.ok.inj h
        exact hfresh
      · obtain rfl := Except.ok.inj h
        exact hfresh
      · split_ifs at h
        obtain rfl := Except.ok.inj h
        exact hfresh
      · cases h

end ResolutionWorld

/-! What the attempts have spent and what is left for the next. -/

/-- The usage that a result reports. -/
structure ReportedUsage where
  inputTokens : Option JsNumber := none
  outputTokens : Option JsNumber := none
  totalTokens : Option JsNumber := none
  costUSD : Option JsNumber := none
  durationMs : Option JsNumber := none

structure Spent where
  tokens : JsNumber
  toolCalls : JsNumber
  costUSD : JsNumber
  durationMs : JsNumber
  deriving DecidableEq

def ReportedUsage.tokens (usage : ReportedUsage) : JsNumber :=
  usage.totalTokens.getD
    ((usage.inputTokens.getD .zero).add (usage.outputTokens.getD .zero))

/-- The accumulated amounts after one more result. -/
def Spent.charge (spent : Spent) (toolCalls : ℕ) (usage : ReportedUsage) : Spent where
  tokens := spent.tokens.add usage.tokens
  toolCalls := spent.toolCalls.add (.finite toolCalls)
  costUSD := spent.costUSD.add (usage.costUSD.getD .zero)
  durationMs := spent.durationMs.add (usage.durationMs.getD .zero)

/-- The limits that an attempt is given. -/
structure AttemptConstraints where
  maxTokens : Option JsNumber
  maxToolCalls : Option JsNumber
  maxCostUSD : Option JsNumber
  maxDurationMs : Option JsNumber

namespace DispatchRequest

def initialSpent (request : DispatchRequest) : Spent where
  tokens := (request.resumeContext.map (·.tokens)).getD .zero
  toolCalls := (request.resumeContext.map (·.toolCalls)).getD .zero
  costUSD := .zero
  durationMs := .zero

def attemptConstraints (request : DispatchRequest) (spent : Spent) : AttemptConstraints where
  maxTokens := request.maxTokens.map fun limit => JsNumber.zero.max (limit.sub spent.tokens)
  maxToolCalls := request.maxToolCalls.map fun limit =>
    JsNumber.zero.max (limit.sub spent.toolCalls)
  maxCostUSD := request.maxCostUSD.map fun limit =>
    JsNumber.zero.max (limit.sub spent.costUSD).toFixed6
  maxDurationMs := request.maxDurationMs.map fun limit =>
    (JsNumber.finite 1).max (limit.sub spent.durationMs)

end DispatchRequest

/-- `reports` is what the attempts have reported, in order; the loop keeps `spent` of it, and `handed`
are the limits of the attempts that were started. -/
structure BudgetState where
  dispatch : DispatchState
  spent : Spent
  reports : List (ℕ × ReportedUsage)
  handed : List AttemptConstraints

inductive BudgetEvent where
  | others (engine : Engine)
  | resolve (w : ResolutionWorld)
  | lookedUp
  | created (executionId : String) (record : Core.ExecutionRecord)
  | flushed
  /-- `executeWithTimeoutAndCancellation` has a result, also where the harness threw or timed out. -/
  | returned (result : UnifiedExecutionResult) (usage : ReportedUsage)
      (policy : Option RoutingPolicyConfig)

namespace BudgetState

def tried (s : BudgetState) : List String := s.dispatch.starts.map (·.harnessId)

/-- The loop moves; an attempt that it starts is given what is left. -/
def move (request : DispatchRequest) (s : BudgetState) (e : DispatchEvent) : Option BudgetState :=
  (s.dispatch.step request.toUnifiedExecutionRequest e).map fun d =>
    { s with
      dispatch := d
      handed :=
        if s.dispatch.starts.length < d.starts.length then
          s.handed ++ [request.attemptConstraints s.spent]
        else s.handed }

def step (request : DispatchRequest) (s : BudgetState) : BudgetEvent → Option BudgetState
  | .others engine => s.move request (.others engine)
  | .resolve w =>
    match w.resolveHarness request s.tried with
    | .ok id => s.move request (.resolved id)
    | .error _ => s.move request .noCandidate
  | .lookedUp => s.move request .lookedUp
  | .created executionId record => s.move request (.created executionId record)
  | .flushed => s.move request .flushed
  | .returned result usage policy =>
    (s.move request (.returned result policy)).map fun s' =>
      { s' with
        spent := s.spent.charge result.toolCalls.length usage
        reports := s.reports ++ [(result.toolCalls.length, usage)] }

def called (request : DispatchRequest) (engine : Engine) : BudgetState where
  dispatch := .called engine
  spent := request.initialSpent
  reports := []
  handed := []

end BudgetState

end Wazir.Harness
