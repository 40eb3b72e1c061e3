import Wazir.Goals.RevisionChain
import Wazir.Shared.JsValue

/-! The limits of the recovery service (`recovery/service.ts`): the operator's, then those of the
graph revision the run is pinned to, then the hook's, clamped. The pinned ones are looked for in
the stored record's `definition`; the graph store writes a `canonicalDefinition` text and no
`definition`, so they are never found. -/

namespace Wazir.Goals

open Wazir.Async

structure RecoveryLimits where
  maxRepairsPerTask : ℤ
  maxSameActionNoProgress : ℤ
  maxTransientRetries : ℤ
  backoffBaseMs : ℤ
  backoffMaxMs : ℤ
  deriving DecidableEq

namespace RecoveryLimits

def defaults : RecoveryLimits := ⟨3, 2, 2, 2000, 60000⟩

/-- `RECOVERY_HARD_CAPS`; no configuration can exceed them. -/
def maxRepairsCap : ℤ := 10
def maxSameActionCap : ℤ := 10
def maxTransientCap : ℤ := 5
def maxAttemptsCap : ℤ := 30
def backoffMaxCap : ℤ := 15 * 60000

end RecoveryLimits

/-- The numbers a source gives. -/
structure RecoveryLimitSource where
  maxRepairsPerTask : Option JsNumber
  maxSameActionNoProgress : Option JsNumber
  maxTransientRetries : Option JsNumber
  backoffBaseMs : Option JsNumber
  backoffMaxMs : Option JsNumber
  deriving DecidableEq

def RecoveryLimitSource.empty : RecoveryLimitSource := ⟨none, none, none, none, none⟩

/-- Later wins. -/
def RecoveryLimitSource.merge (a b : RecoveryLimitSource) : RecoveryLimitSource where
  maxRepairsPerTask := b.maxRepairsPerTask.or a.maxRepairsPerTask
  maxSameActionNoProgress := b.maxSameActionNoProgress.or a.maxSameActionNoProgress
  maxTransientRetries := b.maxTransientRetries.or a.maxTransientRetries
  backoffBaseMs := b.backoffBaseMs.or a.backoffBaseMs
  backoffMaxMs := b.backoffMaxMs.or a.backoffMaxMs

def clampInt (value : Option JsNumber) (fallback lower upper : ℤ) : ℤ :=
  match value with
  | some (.finite q) => min upper (max lower ⌊q⌋)
  | _ => fallback

open RecoveryLimits in
def resolveRecoveryLimits (sources : List (Option RecoveryLimitSource)) : RecoveryLimits :=
  let merged := (sources.filterMap id).foldl RecoveryLimitSource.merge .empty
  let backoffMaxMs := clampInt merged.backoffMaxMs defaults.backoffMaxMs 0 backoffMaxCap
  { maxRepairsPerTask :=
      clampInt merged.maxRepairsPerTask defaults.maxRepairsPerTask 0 maxRepairsCap
    -- a first failure is never "no progress"
    maxSameActionNoProgress :=
      clampInt merged.maxSameActionNoProgress defaults.maxSameActionNoProgress 2 maxSameActionCap
    maxTransientRetries :=
      clampInt merged.maxTransientRetries defaults.maxTransientRetries 0 maxTransientCap
    backoffBaseMs := clampInt merged.backoffBaseMs defaults.backoffBaseMs 0 backoffMaxMs
    backoffMaxMs := backoffMaxMs }

/-- Total failed attempts a target may accumulate. -/
def maxAttemptsFor (limits : RecoveryLimits) : ℤ :=
  min RecoveryLimits.maxAttemptsCap
    ((limits.maxRepairsPerTask + 1) * (limits.maxTransientRetries + 1))

/-- `found` is what the store gives for the run's graph revision, `none` without a store. -/
def limitsFromStore (found : Option (Except Thrown JsValue)) (run : GoalRunLedger) :
    Option RecoveryLimitSource :=
  match found with
  | some (.ok record) =>
    let limits := (((record.get "definition").get "constitution").get "resourceLimits")
    let digest := record.get "digest"
    -- only the revision the run was created from is trusted
    if !limits.truthy || (digest.truthy && run.graphDigest ≠ "" &&
        digest.string ≠ some run.graphDigest) then none
    else some { RecoveryLimitSource.empty with
      maxRepairsPerTask := (limits.get "maxRepairsPerTask").number
      maxSameActionNoProgress := (limits.get "maxSameActionNoProgress").number }
  | _ => none

structure RecoveryServiceDeps where
  limits : Option RecoveryLimitSource
  resolveLimits : Option (GoalRunLedger → Option RecoveryLimitSource)

/-- The limits `decide` applies. -/
def RecoveryServiceDeps.limitsFor (deps : RecoveryServiceDeps)
    (found : Option (Except Thrown JsValue)) (run : GoalRunLedger) : RecoveryLimits :=
  resolveRecoveryLimits
    [deps.limits, limitsFromStore found run, deps.resolveLimits.bind fun resolve => resolve run]

/-! What the graph store wrote. -/

section Written

-- the canonical text of a definition
variable (canonicalText : GoalGraphDefinition → String)

def StoredRevision.toJs (stored : StoredRevision) : JsValue :=
  .obj ([("format", .nat stored.format), ("graphId", .str stored.graphId),
    ("projectId", .str stored.projectId), ("revision", .nat stored.revision),
    ("digest", .str stored.digest), ("createdAt", .str (isoText stored.createdAt)),
    ("createdBy", .str stored.createdBy),
    ("canonicalDefinition", .str (canonicalText stored.canonicalDefinition))] ++
    (stored.parentRevision.map fun parent => ("parentRevision", .nat parent)).toList)

/-- `store.get` of a revision's key. -/
def GraphShared.getJs (s : GraphShared) (graphId : GraphId) (revision : ℕ) : JsValue :=
  ((s.revisions.lookup (graphId, revision)).map (StoredRevision.toJs canonicalText)).getD .undefined

theorem toJs_definition (stored : StoredRevision) :
    (stored.toJs canonicalText).get "definition" = .undefined := by
  obtain ⟨format, graphId, projectId, revision, digest, createdAt, createdBy, parent, text⟩ := stored
  cases parent <;> rfl

theorem limitsFromStore_written (s : GraphShared) (run : GoalRunLedger) :
    limitsFromStore (some (.ok (s.getJs canonicalText run.graphId run.graphRevision))) run =
      none := by
  have h : (s.getJs canonicalText run.graphId run.graphRevision).get "definition" = .undefined := by
    unfold GraphShared.getJs
    cases s.revisions.lookup (run.graphId, run.graphRevision) with
    | none => rfl
    | some stored => exact toJs_definition canonicalText stored
  dsimp only [limitsFromStore]
  rw [h]
  rfl

end Written

/-- The limits applied are the pinned ones, clamped to the hard caps. -/
def HonoursPinned (pinned : ResourceLimits) (applied : RecoveryLimits) : Prop :=
  applied.maxRepairsPerTask = min 10 (max 0 (pinned.maxRepairsPerTask : ℤ)) ∧
    applied.maxSameActionNoProgress = min 10 (max 2 (pinned.maxSameActionNoProgress : ℤ))

/-- An operator's number, or the default. -/
def RecoveryServiceDeps.operatorLimit (deps : RecoveryServiceDeps)
    (field : RecoveryLimitSource → Option JsNumber) (fallback lower : ℤ) : ℤ :=
  clampInt (deps.limits.bind field) fallback lower 10

theorem limitsFor_written (canonicalText : GoalGraphDefinition → String) (s : GraphShared)
    (run : GoalRunLedger) (deps : RecoveryServiceDeps) (hhook : deps.resolveLimits = none) :
    deps.limitsFor (some (.ok (s.getJs canonicalText run.graphId run.graphRevision))) run =
      resolveRecoveryLimits [deps.limits] := by
  unfold RecoveryServiceDeps.limitsFor
  rw [limitsFromStore_written, hhook]
  cases deps.limits <;> rfl

theorem resolve_operator (deps : RecoveryServiceDeps) :
    (resolveRecoveryLimits [deps.limits]).maxRepairsPerTask =
        deps.operatorLimit (·.maxRepairsPerTask) 3 0 ∧
      (resolveRecoveryLimits [deps.limits]).maxSameActionNoProgress =
        deps.operatorLimit (·.maxSameActionNoProgress) 2 2 := by
  obtain ⟨limits, hook⟩ := deps
  cases limits with
  | none => exact ⟨rfl, rfl⟩
  | some limits =>
    obtain ⟨repairs, same, transient, base, maxMs⟩ := limits
    cases repairs <;> cases same <;> exact ⟨rfl, rfl⟩

/-- The limits of a revision, the one that the run has pinned or another, are applied exactly where the
operator's happen to be the same. -/
theorem honours_iff (canonicalText : GoalGraphDefinition → String) (s : GraphShared)
    (run : GoalRunLedger) (stored : StoredRevision) (deps : RecoveryServiceDeps)
    (hhook : deps.resolveLimits = none) :
    HonoursPinned stored.canonicalDefinition.resourceLimits
      (deps.limitsFor (some (.ok (s.getJs canonicalText run.graphId run.graphRevision))) run) ↔
    deps.operatorLimit (·.maxRepairsPerTask) 3 0 =
        min 10 (max 0 (stored.canonicalDefinition.resourceLimits.maxRepairsPerTask : ℤ)) ∧
      deps.operatorLimit (·.maxSameActionNoProgress) 2 2 =
        min 10 (max 2 (stored.canonicalDefinition.resourceLimits.maxSameActionNoProgress : ℤ)) := by
  obtain ⟨hrepairs, hsame⟩ := resolve_operator deps
  rw [limitsFor_written canonicalText s run deps hhook, HonoursPinned, hrepairs, hsame]

/-! A run of the small graph, which allows one repair. -/

def importOnce : List (Action GraphRequest ℕ GraphInput) :=
  [.begin ⟨0, 4, .importYaml "wazir" "name: Small graph" (some smallGraph) "me"⟩] ++ graphSteps 0 6

/-- The canonical text that `smallDigest` is the digest of. -/
def smallText (_ : GoalGraphDefinition) : String :=
  "\x7b\"constitution\":\x7b\"allowedUnattended\":[],\"invariants\":[],\"needsApproval\":[]," ++
  "\"objectiveOwner\":\"human\",\"resourceLimits\":\x7b\"hostedSpendUsd\":0," ++
  "\"localModelFirst\":true,\"maxConcurrentWritersPerWorktree\":1,\"maxRepairsPerTask\":1," ++
  "\"maxRunMinutes\":60,\"maxSameActionNoProgress\":1,\"maxTasksPerRun\":10\x7d\x7d," ++
  "\"executionGraph\":\x7b\"entry\":\"shell\",\"nodes\":[\x7b\"id\":\"shell\"," ++
  "\"next\":[]\x7d]\x7d,\"name\":\"Small graph\",\"schemaVersion\":\"1\"," ++
  "\"targets\":[\x7b\"acceptance\":[\"done\"],\"artifacts\":[],\"dependsOn\":[]," ++
  "\"executor\":\"shell\",\"id\":\"t\",\"priority\":0,\"stage\":\"one\"," ++
  "\"title\":\"T\"\x7d]\x7d"

def smallStored : StoredRevision where
  format := 1
  graphId := "wazir--small-graph"
  projectId := "wazir"
  revision := 1
  digest := smallDigest smallGraph
  createdAt := ⟨0, epoch_valid⟩
  createdBy := "me"
  parentRevision := none
  canonicalDefinition := smallGraph

theorem hour_valid : -maxTimeMs ≤ 3600000 ∧ 3600000 ≤ maxTimeMs := by decide

def smallRun : GoalRunLedger where
  runId := "run-1"
  graphId := "wazir--small-graph"
  graphRevision := 1
  graphDigest := smallDigest smallGraph
  status := .created
  ledgerRevision := 1
  targets := ∅
  resource := ⟨0, 0, ⟨0, epoch_valid⟩, ⟨3600000, hour_valid⟩⟩
  createdBy := "me"
  createdAt := ⟨0, epoch_valid⟩
  updatedAt := ⟨0, epoch_valid⟩

/-- The first revision of the small graph is there. -/
def smallWritten (cfg : GraphConfig) : Bool :=
  cfg.hist.shared.revisions.lookup ("wazir--small-graph", 1) = some smallStored

theorem small_written : ∃ cfg, Reach (graphSystem smallDigest) emptyGraphs cfg ∧
    cfg.hist.shared.revisions.lookup ("wazir--small-graph", 1) = some smallStored := by
  have h : (schedule (graphSystem smallDigest) importOnce (.start emptyGraphs)).any smallWritten =
      true := by decide
  obtain ⟨cfg, hr, hcheck⟩ := Reach.of_check h
  exact ⟨cfg, hr, of_decide_eq_true hcheck⟩

theorem pinned_ignored : ∃ cfg, Reach (graphSystem smallDigest) emptyGraphs cfg ∧
    cfg.hist.shared.revisions.lookup (smallRun.graphId, smallRun.graphRevision) = some smallStored ∧
    smallRun.graphDigest = smallStored.digest ∧
    ¬ HonoursPinned smallGraph.resourceLimits
      ((⟨none, none⟩ : RecoveryServiceDeps).limitsFor (some (.ok (cfg.hist.shared.getJs
        smallText smallRun.graphId smallRun.graphRevision))) smallRun) := by
  obtain ⟨cfg, hr, hwritten⟩ := small_written
  refine ⟨cfg, hr, hwritten, rfl, fun h => ?_⟩
  rw [limitsFor_written _ _ _ _ rfl] at h
  exact absurd h.1 (by decide)

/-- An operator who allows as many repairs as the graph does. -/
theorem honours_same : ∃ cfg, Reach (graphSystem smallDigest) emptyGraphs cfg ∧
    cfg.hist.shared.revisions.lookup (smallRun.graphId, smallRun.graphRevision) = some smallStored ∧
    HonoursPinned smallGraph.resourceLimits
      ((⟨some { RecoveryLimitSource.empty with maxRepairsPerTask := some (.finite 1) }, none⟩ :
        RecoveryServiceDeps).limitsFor (some (.ok (cfg.hist.shared.getJs
          smallText smallRun.graphId smallRun.graphRevision))) smallRun) := by
  obtain ⟨cfg, hr, hwritten⟩ := small_written
  refine ⟨cfg, hr, hwritten, (honours_iff _ _ smallRun smallStored _ rfl).mpr ?_⟩
  decide

end Wazir.Goals
