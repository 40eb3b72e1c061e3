import Wazir.Shared.Strings
import Wazir.Goals.Contracts

/-! Which targets may start (`controller/eligibility.ts`): completed dependencies, the order
of selection, and the target state machine with its human-only edges. -/

namespace Wazir.Goals

structure TargetCriticality where
  targetId : TargetId
  transitiveDependents : ℕ
  longestDownstreamChain : ℕ

/-- An entry of the map `dependents`. -/
def dependentsOf (targets : List GoalTarget) (id : TargetId) : List TargetId :=
  sortBy compareStrings (targets.flatMap fun t => (t.dependsOn.filter (· = id)).map fun _ => t.id)

/-- `chain`, with the map `chainMemo` passed along. The stack holds distinct targets, so
`fuel` above their number is never used up. -/
def chain (targets : List GoalTarget) :
    ℕ → TargetId → List TargetId → Table TargetId ℕ → ℕ × Table TargetId ℕ
  | 0, _, _, memo => (0, memo)
  | fuel + 1, id, stack, memo =>
    match memo.lookup id with
    | some best => (best, memo)
    | none =>
      if id ∈ stack then (0, memo)
      else
        let r := (dependentsOf targets id).foldl
          (fun acc d =>
            let below := chain targets fuel d (id :: stack) acc.2
            (max acc.1 (1 + below.1), below.2))
          (0, memo)
        (r.1, r.2.insert id r.1)

/-- The set `seen` of the traversal from `self`; each edge is queued at most twice. -/
def transitiveDependents (targets : List GoalTarget) (self : TargetId) :
    ℕ → List TargetId → List TargetId → List TargetId
  | 0, _, seen => seen
  | _ + 1, [], seen => seen
  | fuel + 1, next :: queue, seen =>
    if next ∈ seen ∨ next = self then transitiveDependents targets self fuel queue seen
    else transitiveDependents targets self fuel (queue ++ dependentsOf targets next) (next :: seen)

def computeCriticality (targets : List GoalTarget) : Table TargetId TargetCriticality :=
  let edges := (targets.map fun t => t.dependsOn.length).sum
  (targets.foldl
    (fun acc t =>
      let seen := transitiveDependents targets t.id (2 * edges + 1) (dependentsOf targets t.id) []
      let longest := chain targets (targets.length + 1) t.id [] acc.2
      (acc.1.insert t.id ⟨t.id, seen.length, longest.1⟩, longest.2))
    ((∅ : Table TargetId TargetCriticality), (∅ : Table TargetId ℕ))).1

/-- Critical-path impact, then priority, then id. -/
def compareTargets (criticality : Table TargetId TargetCriticality) (a b : GoalTarget) : Ordering :=
  let ca := criticality.lookup a.id
  let cb := criticality.lookup b.id
  let dependents (c : Option TargetCriticality) : ℕ := (c.map (·.transitiveDependents)).getD 0
  let longest (c : Option TargetCriticality) : ℕ := (c.map (·.longestDownstreamChain)).getD 0
  (compare (dependents cb) (dependents ca)).then <|
    (compare (longest cb) (longest ca)).then <|
      (compare b.priority a.priority).then (compareStrings a.id b.id)

def unlockingTargetStatuses : List TargetStatus := [.completed]

def dependenciesCompleted (run : GoalRunLedger) (target : GoalTarget) : Bool :=
  target.dependsOn.all fun dep => (run.statusOf dep).any (· ∈ unlockingTargetStatuses)

def GoalRunLedger.statusOrQueued (run : GoalRunLedger) (targetId : TargetId) : TargetStatus :=
  (run.statusOf targetId).getD .queued

def selectable : List TargetStatus := [.queued, .eligible]

def eligibleTargets (run : GoalRunLedger) (graph : GoalGraphDefinition) : List TargetId :=
  (sortBy (compareTargets (computeCriticality graph.targets))
    (graph.targets.filter fun t =>
      run.statusOrQueued t.id ∈ selectable && dependenciesCompleted run t)).map GoalTarget.id

def newlyUnlockedTargets (run : GoalRunLedger) (graph : GoalGraphDefinition) : List TargetId :=
  (eligibleTargets run graph).filter fun id => run.statusOrQueued id = .queued

def targetTransitions : TargetStatus → List TargetStatus
  | .queued => [.eligible, .blocked, .stopped]
  | .eligible => [.active, .queued, .needsApproval, .blocked, .stopped]
  | .active => [.verifying, .failed, .needsApproval, .blocked, .stopped]
  | .verifying => [.verified, .failed, .awaitingExternal, .blocked, .stopped]
  | .verified => [.completed, .needsApproval, .awaitingExternal, .failed, .blocked, .stopped]
  | .failed => [.repairing, .blocked, .stopped]
  | .repairing => [.active, .eligible, .blocked, .stopped]
  | .needsApproval => [.eligible, .completed, .blocked, .stopped]
  | .awaitingExternal => [.blocked, .stopped]
  | .blocked => []
  | .completed => []
  | .stopped => []

/-- Edges only a human principal may take. -/
def humanTargetTransitions : TargetStatus → List TargetStatus
  | .failed => [.eligible]
  | .blocked => [.eligible]
  | .awaitingExternal => [.eligible]
  | .stopped => [.eligible]
  | .needsApproval => [.eligible, .completed, .blocked]
  | _ => []

def isUser (actor : String) : Bool := actor.startsWith "user:"

def canTransitionTarget (source target : TargetStatus) (actor : String) : Bool :=
  if target ∈ targetTransitions source then
    if source = .needsApproval ∧ target = .completed then isUser actor else true
  else isUser actor && target ∈ humanTargetTransitions source

def assertTargetTransition (targetId : TargetId) (source target : TargetStatus) (actor : String) :
    Except Thrown Unit :=
  if canTransitionTarget source target actor then .ok ()
  else
    fail .validation ("Illegal target transition for '" ++ targetId ++ "': " ++ source.name ++
      " -> " ++ target.name ++ " (actor " ++ actor ++ ")")
      [("targetId", .str targetId), ("from", .str source.name), ("to", .str target.name),
        ("actor", .str actor)]

end Wazir.Goals
