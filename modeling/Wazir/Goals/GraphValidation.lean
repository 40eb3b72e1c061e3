import Wazir.Goals.GraphCycles
import Wazir.Shared.JsValue

/-! Validation of graph definitions (`graph/validation.ts`): a pure function of any value, which
lists what is wrong with it. -/

namespace Wazir.Goals

inductive GraphIssueCode where
  | schema | duplicateTarget | unknownExecutor | selfDependency | unknownDependency | cycle
  | invalidLimit
  deriving DecidableEq

structure GraphValidationIssue where
  code : GraphIssueCode
  message : String
  path : String
  targetIds : Option (List TargetId) := none
  deriving DecidableEq

def schemaIssue (message path : String) (targetIds : Option (List TargetId) := none) :
    GraphValidationIssue :=
  ⟨.schema, message, path, targetIds⟩

/-- The issue, if the condition holds. -/
def issueIf (condition : Prop) [Decidable condition] (issue : GraphValidationIssue) :
    List GraphValidationIssue :=
  if condition then [issue] else []

@[simp] theorem issueIf_nil {condition : Prop} [Decidable condition]
    {issue : GraphValidationIssue} : issueIf condition issue = [] ↔ ¬ condition := by
  simp [issueIf]

def idChar (c : Char) : Bool := c.isAlphanum || c = '.' || c = '_' || c = '-'

/-- `/^[A-Za-z0-9][A-Za-z0-9._-]{0,63}$/`, the pattern of target ids and of node ids. -/
def validNodeId (id : String) : Bool :=
  match id.toList with
  | [] => false
  | c :: rest => c.isAlphanum && rest.length ≤ 63 && rest.all idChar

def idPatternText : String := "/^[A-Za-z0-9][A-Za-z0-9._-]\x7b0,63\x7d$/"

def maxTargets : ℕ := 2000
def maxExecutionNodes : ℕ := 500

/-! Limits and constitution. -/

structure IntegerLimit where
  key : String
  min : ℤ
  optional : Bool := false

def integerLimits : List IntegerLimit :=
  [⟨"maxTasksPerRun", 1, false⟩, ⟨"maxRepairsPerTask", 0, false⟩,
    ⟨"maxSameActionNoProgress", 1, false⟩, ⟨"maxRunMinutes", 1, false⟩,
    ⟨"maxConcurrentWritersPerWorktree", 1, false⟩, ⟨"maxConcurrentTargets", 1, true⟩]

def limitsPath : String := "constitution.resourceLimits"

/-- `${JSON.stringify(v)}` -/
def stringified (v : JsValue) : String :=
  if v.isUndefined then "undefined" else String.ofList v.jsonText

def limitIssue (key expected : String) (v : JsValue) : GraphValidationIssue :=
  ⟨.invalidLimit, key ++ " must be " ++ expected ++ " (got " ++ stringified v ++ ")",
    limitsPath ++ "." ++ key, none⟩

def integerLimitIssues (limits : JsValue) (limit : IntegerLimit) : List GraphValidationIssue :=
  let v := limits.get limit.key
  issueIf (¬ (v.isUndefined ∧ limit.optional) ∧ ¬ v.safeInteger.any fun n => limit.min ≤ n)
    (limitIssue limit.key ("an integer >= " ++ toString limit.min) v)

def validateLimits (limits : JsValue) : List GraphValidationIssue :=
  if !limits.isObject then [schemaIssue (limitsPath ++ " must be an object") limitsPath]
  else
    let spend := limits.get "hostedSpendUsd"
    let known := integerLimits.map IntegerLimit.key ++ ["hostedSpendUsd", "localModelFirst"]
    integerLimits.flatMap (integerLimitIssues limits) ++
      issueIf (¬ spend.finiteNumber.any fun q => 0 ≤ q)
        (limitIssue "hostedSpendUsd" "a finite number >= 0" spend) ++
      issueIf (¬ (limits.get "localModelFirst").isBool)
        ⟨.invalidLimit, "localModelFirst must be a boolean", limitsPath ++ ".localModelFirst", none⟩ ++
      (limits.keys.filter fun key => key ∉ known).map fun key =>
        ⟨.invalidLimit, "unknown resource limit \"" ++ key ++ "\"", limitsPath ++ "." ++ key, none⟩

def validateConstitution (c : JsValue) : List GraphValidationIssue :=
  if !c.isObject then [schemaIssue "constitution must be an object" "constitution"]
  else
    issueIf ((c.get "objectiveOwner").string ≠ some "human")
      (schemaIssue "constitution.objectiveOwner must be \"human\"" "constitution.objectiveOwner") ++
    ["invariants", "allowedUnattended", "needsApproval"].flatMap (fun field =>
      issueIf ((c.get field).stringArray = none)
        (schemaIssue ("constitution." ++ field ++ " must be an array of strings")
          ("constitution." ++ field))) ++
    validateLimits (c.get "resourceLimits")

/-! The execution graph. -/

def nodesPath (i : ℕ) : String := "executionGraph.nodes[" ++ toString i ++ "]"

def nodeId (n : JsValue) : Option String :=
  if n.isObject then (n.get "id").string.filter validNodeId else none

/-- The first pass over the nodes, with the ids so far. -/
def nodeIssues : List String → ℕ → List JsValue → List GraphValidationIssue × List String
  | ids, _, [] => ([], ids)
  | ids, i, n :: rest =>
    match nodeId n with
    | none =>
      let others := nodeIssues ids (i + 1) rest
      (schemaIssue ("execution node id must match " ++ idPatternText) (nodesPath i) :: others.1,
        others.2)
    | some id =>
      let promptId := n.get "promptId"
      let others := nodeIssues (if id ∈ ids then ids else ids ++ [id]) (i + 1) rest
      (issueIf (id ∈ ids)
          (schemaIssue ("duplicate execution node \"" ++ id ++ "\"") (nodesPath i ++ ".id")) ++
        issueIf ((n.get "next").stringArray = none)
          (schemaIssue ("execution node \"" ++ id ++ "\" next must be an array of node ids")
            (nodesPath i ++ ".next")) ++
        issueIf (¬ promptId.isUndefined ∧ ¬ promptId.nonEmptyString)
          (schemaIssue ("execution node \"" ++ id ++ "\" promptId must be a non-empty string")
            (nodesPath i ++ ".promptId")) ++ others.1, others.2)

def nextIssues (ids : List String) (i : ℕ) (n : JsValue) : List GraphValidationIssue :=
  match (if n.isObject then (n.get "next").stringArray else none) with
  | none => []
  | some next => (next.filter (· ∉ ids)).map fun target =>
    schemaIssue ("execution node \"" ++ (n.get "id").template ++ "\" points to unknown node \"" ++
      target ++ "\"") (nodesPath i ++ ".next")

/-- The issues, and the node ids when the execution graph is structurally usable. -/
def validateExecutionGraph (g : JsValue) : List GraphValidationIssue × Option (List String) :=
  if !g.isObject then ([schemaIssue "executionGraph must be an object" "executionGraph"], none)
  else match (g.get "nodes").array with
  | none =>
    ([schemaIssue "executionGraph.nodes must be an array" "executionGraph.nodes"], none)
  | some nodes =>
    let pass := nodeIssues [] 0 nodes
    (issueIf (maxExecutionNodes < nodes.length)
        (schemaIssue ("executionGraph.nodes exceeds " ++ toString maxExecutionNodes)
          "executionGraph.nodes") ++ pass.1 ++
      (nodes.zipIdx.flatMap fun n => nextIssues pass.2 n.2 n.1) ++
      issueIf (¬ (g.get "entry").string.any (· ∈ pass.2))
        (schemaIssue "executionGraph.entry must name an execution node" "executionGraph.entry"),
      some pass.2)

/-! Targets. -/

def targetPath (i : ℕ) : String := "targets[" ++ toString i ++ "]"

def targetSchemaIssues (path : String) (t : JsValue) : List GraphValidationIssue :=
  let id := (t.get "id").string
  let schema (field message : String) := schemaIssue message (path ++ "." ++ field)
    (id.map fun id => [id])
  let text (field : String) := issueIf (¬ (t.get field).nonEmptyString)
    (schema field (field ++ " must be a non-empty string"))
  let flag (field : String) := issueIf (¬ (t.get field).isUndefined ∧ ¬ (t.get field).isBool)
    (schema field (field ++ " must be a boolean"))
  issueIf (¬ id.any validNodeId) (schema "id" ("target id must match " ++ idPatternText)) ++
    text "stage" ++ text "title" ++
    (match (t.get "dependsOn").stringArray with
      | none => [schema "dependsOn" "dependsOn must be an array of target ids"]
      | some deps =>
        issueIf (¬ deps.Nodup) (schema "dependsOn" "dependsOn contains duplicate entries")) ++
    issueIf ((t.get "priority").finiteNumber = none)
      (schema "priority" "priority must be a finite number") ++
    text "executor" ++
    issueIf ((t.get "artifacts").stringArray = none)
      (schema "artifacts" "artifacts must be an array of strings") ++
    issueIf (¬ (t.get "acceptance").stringArray.any fun a => a ≠ [] ∧ ∀ c ∈ a, trim c ≠ "")
      (schema "acceptance" ("acceptance must be a non-empty array of non-empty criteria " ++
        "(a target without criteria can never be verified)")) ++
    flag "externalDependency" ++ flag "requiresApproval"

def duplicateIssues (path : String) (seen : List (TargetId × ℕ)) (t : JsValue) :
    List GraphValidationIssue :=
  match (t.get "id").string with
  | none => []
  | some id =>
    match seen.lookup id with
    | none => []
    | some first =>
      [⟨.duplicateTarget, "duplicate target id \"" ++ id ++ "\" (also at " ++ targetPath first ++ ")",
        path ++ ".id", some [id]⟩]

def executorIssues (path : String) (nodeIds : Option (List String)) (t : JsValue) :
    List GraphValidationIssue :=
  let executor := t.get "executor"
  issueIf (executor.nonEmptyString ∧ nodeIds.any fun ids => ¬ executor.string.any (· ∈ ids))
    ⟨.unknownExecutor, "target \"" ++ (t.get "id").template ++ "\" executor \"" ++
      executor.template ++ "\" is not an execution-graph node", path ++ ".executor",
      (t.get "id").string.map fun id => [id]⟩

structure TargetPass where
  issues : List GraphValidationIssue
  seen : List (TargetId × ℕ)
  wellFormed : List TargetNode

def targetPass (nodeIds : Option (List String)) : List (TargetId × ℕ) → ℕ → List JsValue → TargetPass
  | seen, _, [] => ⟨[], seen, []⟩
  | seen, i, t :: rest =>
    let path := targetPath i
    if !t.isObject then
      let others := targetPass nodeIds seen (i + 1) rest
      { others with issues := schemaIssue "target must be an object" path :: others.issues }
    else
      let faults := targetSchemaIssues path t ++ duplicateIssues path seen t
      let seen' := match (t.get "id").string with
        | none => seen
        | some id => if (seen.lookup id).isSome then seen else seen ++ [(id, i)]
      let others := targetPass nodeIds seen' (i + 1) rest
      { issues := faults ++ executorIssues path nodeIds t ++ others.issues
        seen := others.seen
        wellFormed :=
          if faults = [] then
            ⟨(t.get "id").string.getD "", (t.get "dependsOn").stringArray.getD []⟩ ::
              others.wellFormed
          else others.wellFormed }

def dependencyIssues (seen : List (TargetId × ℕ)) (t : TargetNode) : List GraphValidationIssue :=
  let path := targetPath ((seen.lookup t.id).getD 0) ++ ".dependsOn"
  t.dependsOn.flatMap fun dep =>
    if dep = t.id then
      [⟨.selfDependency, "target \"" ++ t.id ++ "\" depends on itself", path, some [t.id]⟩]
    else if (seen.lookup dep).isNone then
      [⟨.unknownDependency, "target \"" ++ t.id ++ "\" depends on unknown target \"" ++ dep ++ "\"",
        path, some [t.id, dep]⟩]
    else []

section Validator

variable (localeCompare : String → String → Ordering)

def targetsIssues (nodeIds : Option (List String)) (targets : List JsValue) :
    List GraphValidationIssue :=
  let pass := targetPass nodeIds [] 0 targets
  issueIf (targets = []) (schemaIssue "targets must contain at least one target" "targets") ++
    issueIf (maxTargets < targets.length)
      (schemaIssue ("targets exceeds " ++ toString maxTargets) "targets") ++
    pass.issues ++ pass.wellFormed.flatMap (dependencyIssues pass.seen) ++
    (findCycles localeCompare pass.wellFormed).map fun cycle =>
      ⟨.cycle, "dependency cycle: " ++ " -> ".intercalate cycle, "targets", some cycle⟩

/-- The issues found; a definition is valid when there are none. -/
def validateGoalGraph (definition : JsValue) : List GraphValidationIssue :=
  if !definition.isObject then [schemaIssue "definition must be an object" ""]
  else
    let purpose := definition.get "purpose"
    let graph := validateExecutionGraph (definition.get "executionGraph")
    issueIf (¬ (definition.get "schemaVersion").nonEmptyString)
        (schemaIssue "schemaVersion must be a non-empty string" "schemaVersion") ++
      issueIf (¬ (definition.get "name").nonEmptyString)
        (schemaIssue "name must be a non-empty string" "name") ++
      issueIf (¬ purpose.isUndefined ∧ purpose.string = none)
        (schemaIssue "purpose must be a string" "purpose") ++
      validateConstitution (definition.get "constitution") ++ graph.1 ++
      match (definition.get "targets").array with
      | none => [schemaIssue "targets must be an array" "targets"]
      | some targets => targetsIssues localeCompare graph.2 targets

end Validator

/-! A definition as the rest of the program reads it. -/

def naturalAt (v : JsValue) (key : String) : ℕ := ((v.get key).safeInteger.getD 0).toNat

def ResourceLimits.ofJs (v : JsValue) : ResourceLimits where
  maxTasksPerRun := naturalAt v "maxTasksPerRun"
  maxRepairsPerTask := naturalAt v "maxRepairsPerTask"
  maxSameActionNoProgress := naturalAt v "maxSameActionNoProgress"
  maxRunMinutes := naturalAt v "maxRunMinutes"
  hostedSpendUsd := (v.get "hostedSpendUsd").finiteNumber.getD 0
  localModelFirst := (v.get "localModelFirst").truthy
  maxConcurrentTargets := (v.get "maxConcurrentTargets").safeInteger.map Int.toNat

def GoalTarget.ofJs (v : JsValue) : GoalTarget where
  id := (v.get "id").string.getD ""
  dependsOn := (v.get "dependsOn").stringArray.getD []
  priority := (v.get "priority").finiteNumber.getD 0
  executor := (v.get "executor").string.getD ""
  artifacts := (v.get "artifacts").stringArray.getD []
  acceptance := (v.get "acceptance").stringArray.getD []
  externalDependency := (v.get "externalDependency").truthy
  requiresApproval := (v.get "requiresApproval").truthy

def GoalGraphDefinition.ofJs (v : JsValue) : GoalGraphDefinition where
  name := (v.get "name").string.getD ""
  resourceLimits := .ofJs ((v.get "constitution").get "resourceLimits")
  targets := ((v.get "targets").array.getD []).map GoalTarget.ofJs

end Wazir.Goals
