import Wazir.Scheduling.Fleet

/-! Which routing a task gets (`resolveRoutingConstraint` of `services/scheduler.ts`,
`services/modelPreferenceService.ts`): the engine's policy, the task's own mode, its execution mode and
the preference of the operator, one over the other. -/

namespace Wazir.Scheduling

/-! Preferences. -/

inductive ModelSelectionMode where
  | auto
  | fast
  | balanced
  | powerful
  | localMode
  | custom
  deriving DecidableEq

structure ModelPreferenceRecord where
  mode : ModelSelectionMode := .auto
  modelId : Option String := none
  strict : Option Bool := none
  reasoningEffort : Effort := .medium

structure EffectiveModelPreference where
  mode : ModelSelectionMode
  modelId : Option String
  strict : Bool
  reasoningEffort : Effort

def ModelPreferenceRecord.toEffective (r : ModelPreferenceRecord) : EffectiveModelPreference where
  mode := r.mode
  modelId := r.modelId
  strict := r.strict.getD r.modelId.isSome
  reasoningEffort := r.reasoningEffort

structure ModelPreferenceService where
  cliOverride : Option ModelPreferenceRecord := none
  sessionPreference : Option ModelPreferenceRecord := none
  persistentPreference : ModelPreferenceRecord := {}

def ModelPreferenceService.getEffectivePreference (s : ModelPreferenceService) :
    EffectiveModelPreference :=
  ((s.cliOverride.or s.sessionPreference).getD s.persistentPreference).toEffective

/-! The constraint. -/

inductive RoutingPolicyMode where
  | providerOnly
  | auto
  | localOnly
  | hybrid
  deriving DecidableEq

structure RoutingPolicyConfig where
  mode : RoutingPolicyMode
  provider : Option String := none
  defaultModel : Option String := none
  allowFallback : Option Bool := none

/-- A mode that a task names and nothing knows is kept as it is. -/
inductive RoutingMode where
  | auto
  | localOnly
  | hybrid
  | providerOnly
  | fast
  | balanced
  | powerful
  | localFirst
  | loadedOnly
  | strictModel
  | custom
  | named (raw : String)
  deriving DecidableEq

inductive IntelligentRoutingMode where
  | auto
  | fast
  | balanced
  | powerful
  | localFirst
  | loadedOnly
  | strictModel
  deriving DecidableEq

structure ResolvedRoutingConstraint where
  mode : RoutingMode
  provider : Option String
  defaultModel : Option String
  allowFallback : Bool
  reasoningEffort : Effort
  intelligentMode : IntelligentRoutingMode
  targetModelId : Option String
  isStrictMode : Bool

/-- What the sources settle one over the other. -/
structure ModeChoice where
  mode : RoutingMode := .auto
  intelligentMode : IntelligentRoutingMode := .auto
  provider : Option String := none

namespace ModeChoice

def ofPolicy (cfg : Option RoutingPolicyConfig) : ModeChoice :=
  match cfg with
  | none => {}
  | some cfg =>
    match cfg.mode with
    | .providerOnly => { mode := .providerOnly, provider := cfg.provider.map String.toLower }
    | .localOnly => { mode := .localOnly, intelligentMode := .localFirst }
    | .hybrid => { mode := .hybrid, intelligentMode := .balanced }
    | .auto => {}

def ofRaw (raw : String) : RoutingMode :=
  if raw = "AUTO" then .auto
  else if raw = "HYBRID" then .hybrid
  else .named raw

/-- A mode of the task's own. -/
def ofTask (cfg : Option RoutingPolicyConfig) (execution : ExecutionPreferences) (raw : String)
    (c : ModeChoice) : ModeChoice :=
  let mode := raw.toLower
  if mode = "nvidia" then
    { mode := .providerOnly, provider := some "nvidia", intelligentMode := .powerful }
  else if mode = "provider_only" then
    { c with
      mode := .providerOnly
      provider := some ((execution.routingProvider.or (cfg.bind (·.provider))).getD "nvidia").toLower }
  else if mode = "local_only" ∨ mode = "local" then
    { c with mode := .localOnly, intelligentMode := .localFirst }
  else if mode = "local_first" then
    { c with mode := .localFirst, intelligentMode := .localFirst }
  else if mode = "fast" ∨ mode = "latency_first" then
    { c with mode := .fast, intelligentMode := .fast }
  else if mode = "powerful" ∨ mode = "quality_first" then
    { c with mode := .powerful, intelligentMode := .powerful }
  else if mode = "balanced" ∨ mode = "cost_aware" then
    { c with mode := .balanced, intelligentMode := .balanced }
  else if mode = "loaded_only" then
    { c with mode := .loadedOnly, intelligentMode := .loadedOnly }
  else if mode = "strict_model" then
    { c with mode := .strictModel, intelligentMode := .strictModel }
  else if mode = "custom" then { c with mode := .custom, intelligentMode := .auto }
  else if cfg.any (·.mode = .providerOnly) then
    { c with
      mode := .providerOnly
      provider := some (((cfg.bind (·.provider)).map String.toLower).getD "nvidia") }
  else { c with mode := ofRaw raw }

def ofExecutionMode (c : ModeChoice) : ExecutionMode → ModeChoice
  | .localMode => { c with mode := .localOnly, intelligentMode := .localFirst }
  | .fastest => { c with mode := .fast, intelligentMode := .fast }
  | .highestQuality => { c with mode := .powerful, intelligentMode := .powerful }
  | .automatic => { c with mode := .auto, intelligentMode := .auto }

def ofPreference (c : ModeChoice) (pref : EffectiveModelPreference) : ModeChoice :=
  match pref.mode with
  | .fast => { c with mode := .fast, intelligentMode := .fast }
  | .balanced => { c with mode := .balanced, intelligentMode := .balanced }
  | .powerful => { c with mode := .powerful, intelligentMode := .powerful }
  | .localMode => { c with mode := .localOnly, intelligentMode := .localFirst }
  | .custom =>
    { c with mode := .custom, intelligentMode := if pref.strict then .strictModel else .auto }
  | .auto => { c with mode := .auto, intelligentMode := .auto }

def resolve (cfg : Option RoutingPolicyConfig) (pref : Option EffectiveModelPreference)
    (task : Task) : ModeChoice :=
  let c := ofPolicy cfg
  if truthy task.rawMode then ofTask cfg task.execution (task.rawMode.getD "") c
  else
    match task.execution.executionMode, pref with
    | some mode, _ => c.ofExecutionMode mode
    | none, some pref => c.ofPreference pref
    | none, none => c

end ModeChoice

def nvidiaDefaultModel : String := "nvidia/nemotron-3.5-super-vl-120b-a12b"

def resolveRoutingConstraint (cfg : Option RoutingPolicyConfig)
    (preferences : Option ModelPreferenceService) (task : Task) : ResolvedRoutingConstraint :=
  let pref := preferences.map (·.getEffectivePreference)
  let c := ModeChoice.resolve cfg pref task
  let pinned := (task.execution.targetModelId.or task.targetModelId).or task.execution.modelId
  let strict := c.intelligentMode = .strictModel || pref.any (·.strict)
  { mode := c.mode
    provider := c.provider
    defaultModel := (task.execution.defaultModelId.or (cfg.bind (·.defaultModel))).or
      (if c.mode = .providerOnly ∧ c.provider = some "nvidia" then some nvidiaDefaultModel else none)
    allowFallback := (task.execution.allowFallback.or (cfg.bind (·.allowFallback))).getD
      (c.mode ≠ .providerOnly)
    reasoningEffort := ((task.requirements.reasoning.or task.execution.reasoningEffort).or
      (pref.map (·.reasoningEffort))).getD .medium
    intelligentMode := c.intelligentMode
    targetModelId := pinned.or (if strict then pref.bind (·.modelId) else none)
    isStrictMode := truthy task.execution.targetModelId || truthy task.targetModelId ||
      truthy task.execution.modelId || c.intelligentMode = .strictModel ||
      pref.any fun p => p.strict && truthy p.modelId }

namespace ResolvedRoutingConstraint

/-- `routing.provider ?? 'nvidia'` -/
def targetProvider (r : ResolvedRoutingConstraint) : String := r.provider.getD "nvidia"

def isLocalRouting (r : ResolvedRoutingConstraint) : Bool :=
  r.mode = .localOnly || r.mode = .localFirst || r.intelligentMode = .localFirst

end ResolvedRoutingConstraint

end Wazir.Scheduling
