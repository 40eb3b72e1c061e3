import Wazir.Shared.Dates
import Mathlib.Data.Rat.Floor

/-! The circuit breaker of a model and a task class (`services/modelReliability.ts`): what it knows
after each outcome, and that the reasons of outcomes do not matter to it. Ratios are exact. -/

namespace Wazir.Core

structure ModelReliabilityOptions where
  /-- Outcomes kept for a model and a task class. -/
  window : ℕ := 10
  /-- Outcomes required before the circuit may open. -/
  minSamples : ℕ := 4
  failureRateThreshold : ℚ := 3 / 5
  cooldownMs : ℤ := 10 * 60000

structure ReliabilityOutcome where
  modelId : String
  taskClass : String
  success : Bool
  reason : Option String
  at' : JsDate

inductive CircuitState where
  | closed
  | opened
  | halfOpen
  deriving DecidableEq

structure CircuitStatus where
  state : CircuitState
  samples : ℕ
  failures : ℕ
  failureRate : ℚ
  openedAt : Option JsDate
  reason : String

structure CircuitOutcome where
  success : Bool
  reason : Option String
  at' : JsDate

structure Circuit where
  outcomes : List CircuitOutcome
  openedAt : Option JsDate

def modelAttributableFailures : List String :=
  ["MODEL_PROTOCOL_BUDGET_EXHAUSTED", "IDENTICAL_VALIDATION_FAILURE", "NO_PROGRESS",
    "REPEATED_ACTION", "MAX_REPAIRS", "MAX_TURNS", "MAX_TOOL_CALLS", "MAX_TOKENS",
    "VERIFICATION_FAILED"]

def successReasons : List String := ["VERIFICATION_PASSED", "COMPLETED"]

/-- Whether a termination counts as a success or as a failure, if it says anything about the
model. -/
def classifyTerminationForReliability (reason : String) : Option Bool :=
  if reason = "" then none
  else if reason ∈ successReasons then some true
  else if reason ∈ modelAttributableFailures then some false
  else none

/-- `circuits`, by key. -/
abbrev ModelReliabilityTracker := String → Option Circuit

def circuitKey (modelId taskClass : String) : String := modelId ++ "\u0000" ++ taskClass

/-- `Number(q.toFixed(3))` -/
def toFixed3 (q : ℚ) : ℚ := ⌊q * 1000 + 1 / 2⌋ / 1000

namespace Circuit

def failures (c : Circuit) : ℕ := (c.outcomes.filter fun o => !o.success).length

def samples (c : Circuit) : ℕ := c.outcomes.length

/-- `now - openedAt`; nothing is less than what an invalid date gives. -/
def elapsed (openedAt now : JsDate) : Option ℤ := do
  let opened ← openedAt
  let n ← now
  some (n.1 - opened.1)

def evaluate (options : ModelReliabilityOptions) (c : Circuit) (now : JsDate) : CircuitStatus :=
  let failureRate := if 0 < c.samples then toFixed3 (c.failures / c.samples) else 0
  let summary := toString c.failures ++ "/" ++ toString c.samples ++
    " recent model-attributable failures"
  match c.openedAt with
  | none => ⟨.closed, c.samples, c.failures, failureRate, none, summary⟩
  | some openedAt =>
    match (elapsed openedAt now).filter (· < options.cooldownMs) with
    | some ms => ⟨.opened, c.samples, c.failures, failureRate, some openedAt,
        "circuit open: " ++ summary ++ "; retry after " ++
          toString ⌈((options.cooldownMs - ms : ℤ) : ℚ) / 1000⌉ ++ "s"⟩
    | none => ⟨.halfOpen, c.samples, c.failures, failureRate, some openedAt,
        "circuit half-open: trial run after " ++ summary⟩

/-- The last outcomes only. -/
def trimmed (options : ModelReliabilityOptions) (c : Circuit) : Circuit :=
  { c with outcomes := c.outcomes.drop (c.outcomes.length - options.window) }

def push (c : Circuit) (outcome : ReliabilityOutcome) : Circuit :=
  { c with outcomes := c.outcomes ++ [⟨outcome.success, outcome.reason, outcome.at'⟩] }

/-- One more outcome. -/
def record (options : ModelReliabilityOptions) (c : Circuit) (outcome : ReliabilityOutcome) :
    Circuit :=
  match (c.evaluate options outcome.at').state with
  | .halfOpen =>
    if outcome.success then
      trimmed options ⟨[⟨true, outcome.reason, outcome.at'⟩], none⟩
    else trimmed options { c.push outcome with openedAt := some outcome.at' }
  | .opened => trimmed options (trimmed options (c.push outcome))
  | .closed =>
    let next := trimmed options (c.push outcome)
    if options.minSamples ≤ next.samples ∧
        options.failureRateThreshold ≤ (next.failures : ℚ) / next.samples then
      trimmed options { next with openedAt := some outcome.at' }
    else trimmed options next

end Circuit

namespace ModelReliabilityTracker

def fresh : ModelReliabilityTracker := fun _ => none

variable (options : ModelReliabilityOptions)

def record (t : ModelReliabilityTracker) (outcome : ReliabilityOutcome) :
    ModelReliabilityTracker :=
  let key := circuitKey outcome.modelId outcome.taskClass
  Function.update t key (some (((t key).getD ⟨[], none⟩).record options outcome))

/-- Records a termination when it says something about the model; tells whether it did. -/
def recordTermination (t : ModelReliabilityTracker) (modelId taskClass reason : String)
    (at' : JsDate) : ModelReliabilityTracker × Bool :=
  match classifyTerminationForReliability reason with
  | some success => (t.record options ⟨modelId, taskClass, success, some reason, at'⟩, true)
  | none => (t, false)

def status (t : ModelReliabilityTracker) (modelId taskClass : String) (now : JsDate) :
    CircuitStatus :=
  match t (circuitKey modelId taskClass) with
  | some circuit => circuit.evaluate options now
  | none => ⟨.closed, 0, 0, 0, none, "no reliability history"⟩

end ModelReliabilityTracker

/-! Reasons do not matter. -/

/-- The same but for the reasons of the outcomes. -/
def Circuit.Like (c c' : Circuit) : Prop :=
  c.outcomes.map (·.success) = c'.outcomes.map (·.success) ∧ c.openedAt = c'.openedAt

namespace Circuit.Like

variable {options : ModelReliabilityOptions} {c c' : Circuit}

theorem samples_eq (h : c.Like c') : c.samples = c'.samples := by
  simpa [Circuit.samples] using congrArg List.length h.1

theorem failures_eq (h : c.Like c') : c.failures = c'.failures := by
  have hcount : ∀ d : Circuit, d.failures = ((d.outcomes.map (·.success)).filter (!·)).length := by
    intro d
    rw [List.filter_map, List.length_map]
    rfl
  rw [hcount, hcount, h.1]

theorem evaluate_eq (h : c.Like c') (now : JsDate) :
    c.evaluate options now = c'.evaluate options now := by
  rw [Circuit.evaluate, Circuit.evaluate, h.samples_eq, h.failures_eq, h.2]

theorem trimmed (h : c.Like c') : (c.trimmed options).Like (c'.trimmed options) := by
  refine ⟨?_, h.2⟩
  have hlen := h.samples_eq
  rw [Circuit.samples, Circuit.samples] at hlen
  rw [Circuit.trimmed, Circuit.trimmed, List.map_drop, List.map_drop, h.1, hlen]

theorem push (h : c.Like c') {outcome outcome' : ReliabilityOutcome}
    (hsuccess : outcome.success = outcome'.success) : (c.push outcome).Like (c'.push outcome') := by
  refine ⟨?_, h.2⟩
  simp [Circuit.push, h.1, hsuccess]

theorem opened (h : c.Like c') (openedAt : Option JsDate) :
    ({ c with openedAt := openedAt } : Circuit).Like { c' with openedAt := openedAt } :=
  ⟨h.1, rfl⟩

theorem record (h : c.Like c') {outcome outcome' : ReliabilityOutcome}
    (hsuccess : outcome.success = outcome'.success) (hat : outcome.at' = outcome'.at') :
    (c.record options outcome).Like (c'.record options outcome') := by
  have hpush := h.push hsuccess
  have htrimmed : ((c.push outcome).trimmed options).Like ((c'.push outcome').trimmed options) :=
    hpush.trimmed
  rw [Circuit.record, Circuit.record, h.evaluate_eq, hat, hsuccess]
  cases (c'.evaluate options outcome'.at').state with
  | halfOpen =>
    cases outcome'.success with
    | true => exact Circuit.Like.trimmed ⟨rfl, rfl⟩
    | false => exact (hpush.opened _).trimmed
  | opened => exact htrimmed.trimmed
  | closed =>
    simp only [htrimmed.samples_eq, htrimmed.failures_eq]
    split_ifs
    · exact (htrimmed.opened _).trimmed
    · exact htrimmed.trimmed

end Circuit.Like

namespace ModelReliabilityTracker

variable {options : ModelReliabilityOptions} {t t' : ModelReliabilityTracker}

def Like (t t' : ModelReliabilityTracker) : Prop :=
  ∀ key, Option.Rel Circuit.Like (t key) (t' key)

theorem Like.fresh : Like fresh fresh := fun _ => .none

theorem Like.record (h : Like t t') {outcome outcome' : ReliabilityOutcome}
    (hmodel : outcome.modelId = outcome'.modelId) (htask : outcome.taskClass = outcome'.taskClass)
    (hsuccess : outcome.success = outcome'.success) (hat : outcome.at' = outcome'.at') :
    Like (t.record options outcome) (t'.record options outcome') := by
  have hcircuit : ((t (circuitKey outcome'.modelId outcome'.taskClass)).getD ⟨[], none⟩).Like
      ((t' (circuitKey outcome'.modelId outcome'.taskClass)).getD ⟨[], none⟩) := by
    have hrel := h (circuitKey outcome'.modelId outcome'.taskClass)
    generalize t (circuitKey outcome'.modelId outcome'.taskClass) = o at hrel ⊢
    generalize t' (circuitKey outcome'.modelId outcome'.taskClass) = o' at hrel ⊢
    cases hrel with
    | some hlike => exact hlike
    | none => exact ⟨rfl, rfl⟩
  intro key
  rw [ModelReliabilityTracker.record, ModelReliabilityTracker.record, hmodel, htask]
  by_cases hkey : key = circuitKey outcome'.modelId outcome'.taskClass
  · subst hkey
    rw [Function.update_self, Function.update_self]
    exact .some (hcircuit.record hsuccess hat)
  · rw [Function.update_of_ne hkey, Function.update_of_ne hkey]
    exact h key

theorem Like.status_eq (h : Like t t') (modelId taskClass : String) (now : JsDate) :
    t.status options modelId taskClass now = t'.status options modelId taskClass now := by
  have hrel := h (circuitKey modelId taskClass)
  rw [status, status]
  generalize t (circuitKey modelId taskClass) = o at hrel ⊢
  generalize t' (circuitKey modelId taskClass) = o' at hrel ⊢
  cases hrel with
  | some hlike => exact hlike.evaluate_eq now
  | none => rfl

end ModelReliabilityTracker

end Wazir.Core
