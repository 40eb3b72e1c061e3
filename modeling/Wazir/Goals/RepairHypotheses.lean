import Wazir.Goals.FailureClassification
import Wazir.Goals.GraphId
import Wazir.Shared.JsValue

/-! Repair hypotheses (`recovery/hypothesis.ts`): when two are the same idea reworded, which are
unsafe, and the deterministic generator. `fold` stands for `toLowerCase().normalize('NFKD')`. -/

namespace Wazir.Goals

def stopwords : List String :=
  ["a", "an", "the", "and", "or", "to", "of", "in", "on", "for", "with", "by", "at", "is", "are",
    "be", "it", "this", "that", "then", "so", "as", "from", "into", "its", "our", "we", "will",
    "should", "please", "try", "again", "now"]

def isCombiningMark (c : Char) : Bool := 0x300 ≤ c.toNat && c.toNat ≤ 0x36F

/-- The runs of `[a-z0-9]`; `run` is the present one, backwards. -/
def tokenRuns : List Char → List Char → List (List Char)
  | run, [] => if run = [] then [] else [run.reverse]
  | run, c :: rest =>
    if slugChar c then tokenRuns (c :: run) rest
    else if run = [] then tokenRuns [] rest
    else run.reverse :: tokenRuns [] rest

section Novelty

variable (fold : String → List Char)

def hypothesisTokens (text : String) : List String :=
  ((tokenRuns [] ((fold text).filter fun c => !isCombiningMark c)).map String.ofList).filter
    (· ∉ stopwords)

def normalizeHypothesis (text : String) : String := " ".intercalate (hypothesisTokens fold text)

/-- The same as `prior`, or a light rewording or reordering of it. -/
def isDuplicateHypothesis (candidate prior : String) : Bool :=
  let a := normalizeHypothesis fold candidate
  let b := normalizeHypothesis fold prior
  if a = "" ∨ b = "" then a = b
  else if a = b then true
  else
    let sa := (hypothesisTokens fold candidate).dedup
    let sb := (hypothesisTokens fold prior).dedup
    let shared := (sa.filter (· ∈ sb)).length
    let union := sa.length + sb.length - shared
    -- `HYPOTHESIS_DUPLICATE_JACCARD` is 0.8
    union = 0 || 4 * union ≤ 5 * shared

end Novelty

/-! Unsafe proposals. -/

open Regex in
/-- `\b(…)\b[^.]{0,n}\b(…)` -/
def wordsNear (first : List String) (n : ℕ) (second : Regex) : Regex :=
  inOrder [whole (words first), .upTo n (noneOf "."), .edge, second]

open Regex in
def unsafeHypothesis : List Regex :=
  let plural (s : String) := inOrder [word s, optional (word "s")]
  let stem (s : String) := inOrder [word s, .star wordUnit]
  let policies := inOrder [word "polic", words ["y", "ies"]]
  [wordsNear ["skip", "disable", "bypass", "remove", "weaken", "relax", "ignore", "suppress",
      "delete"] 40
      (oneOf [stem "verif", plural "test", plural "check", plural "gate", policies,
        plural "approval", word "acceptance", stem "criteri", stem "guard", stem "sandbox"]),
    wordsNear ["raise", "increase", "change", "edit", "override", "lift"] 40
      (inOrder [oneOf [plural "limit", word "budget", plural "cap", word "spend",
        inOrder [word "max_", wordUnit, .star wordUnit], plural "permission", policies], .edge]),
    wordsNear ["mark"] 30
      (inOrder [words ["complete", "completed", "verified", "passed", "done"], .edge]),
    whole (oneOf [inOrder [word "self", optional (anyOf "- "), word "approve"],
      inOrder [word "auto", optional (anyOf "- "), word "approve"],
      inOrder [word "grant ", words ["myself", "itself"]],
      inOrder [word "approve ", words ["the", "this"], word " ",
        words ["action", "target", "run"]]]),
    wordsNear ["rewrite", "redefine", "change"] 30
      (inOrder [words ["objective", "acceptance", "success rubric"], .edge]),
    inOrder [.edge, oneOf [inOrder [word "force", anyOf "- ", word "push"], word "--no-verify",
      word "rm -rf /"]]]

def isUnsafeHypothesis (text : String) : Bool :=
  unsafeHypothesis.any fun pattern => pattern.test (utf16 text)

/-! Sanitizing. -/

/-- `.replace(/\s+/g, ' ')`; `inRun` says that the space of the present run is out. -/
def collapseSpace : Bool → List Char → List Char
  | _, [] => []
  | inRun, c :: rest =>
    if isWhiteSpace c then
      if inRun then collapseSpace true rest else ' ' :: collapseSpace true rest
    else c :: collapseSpace false rest

def isControl (c : Char) : Bool := c.toNat ≤ 0x1F || c.toNat = 0x7F

/-- `.replace(/^(?:[-*•]|\d+[.)])\s+/, '')` -/
def dropBullet (cs : List Char) : List Char :=
  let digits := cs.takeWhile Char.isDigit
  let afterMark : Option (List Char) :=
    match cs with
    | '-' :: rest | '*' :: rest | '•' :: rest => some rest
    | _ =>
      match digits, cs.drop digits.length with
      | _ :: _, '.' :: rest | _ :: _, ')' :: rest => some rest
      | _, _ => none
  match afterMark with
  | some (c :: rest) => if isWhiteSpace c then rest.dropWhile isWhiteSpace else cs
  | _ => cs

def hypothesisMaxChars : ℕ := 600

def trimEnd (cs : List Char) : List Char := (cs.reverse.dropWhile isWhiteSpace).reverse

def sanitizeText (text : String) : String :=
  let spaced := collapseSpace false (text.toList.map fun c => if isControl c then ' ' else c)
  let clean := dropBullet (trim (String.ofList spaced)).toList
  String.ofList <|
    if hypothesisMaxChars < (utf16 (String.ofList clean)).length then
      trimEnd (sliceUnits hypothesisMaxChars clean)
    else clean

/-- `''` when the value is no text. -/
def sanitizeHypothesis (value : JsValue) : String := (value.string.map sanitizeText).getD ""

/-! The deterministic generator. -/

structure RecoveryTarget extends GoalTarget where
  title : String

structure HypothesisContext where
  title : String
  criterion : String
  artifacts : String

def HypothesisContext.pipelineStrategies (c : HypothesisContext) : CoreFailureClass → List String
  | .buildFailed =>
    ["Fix the first reported compiler error at its source location only, then rebuild before " ++
      "touching any downstream error. Test: the build exits 0.",
      "Check for a missing or mis-named import, export or module path introduced by the last " ++
        "change and restore it. Test: module resolution succeeds and the build exits 0."]
  | .typecheckFailed =>
    ["Correct the reported type errors where the types are declared rather than casting at " ++
      "call sites. Test: the type checker reports zero errors.",
      "Align the changed function signatures with every caller found by searching the " ++
        "workspace. Test: the type checker passes for all callers."]
  | .lintFailed =>
    ["Apply the reported lint rule fixes without behaviour changes. Test: lint exits 0 and the " ++
      "existing tests still pass."]
  | .testFailed =>
    ["Reproduce the failing test for \"" ++ c.criterion ++
        "\" in isolation, read its assertion diff and fix the narrowest code path it " ++
          "exercises. Test: that single test passes, then the full suite.",
      "Re-derive the expected behaviour for \"" ++ c.criterion ++
        "\" from the acceptance text, since the implementation may misread the contract; add a " ++
          "regression test that encodes it. Test: new regression test fails before the fix " ++
          "and passes after."]
  | .staleEdit =>
    ["Reread every file the task edits from disk, then reapply the change against the current " ++
      "content in one write per file. Test: the diff applies cleanly and checks rerun."]
  | .modelProtocol =>
    ["Constrain executor output to the declared output schema and validate it before use. " ++
      "Test: schema validation passes on the produced output."]
  | .modelContextOverflow =>
    ["Split the task into smaller sub-steps and pass only the files each step needs. Test: " ++
      "every sub-step completes within the context window."]
  | .artifactContractFailed =>
    ["Produce exactly the declared artifacts (" ++ c.artifacts ++
      ") at the declared paths and regenerate their digests. Test: every declared artifact " ++
        "exists and its digest matches the verified bytes."]
  | _ => []

def HypothesisContext.verificationStrategies (c : HypothesisContext) : List String :=
  ["Address the failing criterion \"" ++ c.criterion ++
      "\" directly: produce the specific evidence or behaviour it names. Test: the independent " ++
        "verifier reports PASS for that criterion.",
    "Audit the produced artifacts (" ++ c.artifacts ++
      ") against each acceptance criterion and fill the gaps the verifier reported, citing " ++
        "evidence per claim. Test: every criterion has PASS evidence from the independent " ++
        "validator.",
    "Write an executable check for \"" ++ c.criterion ++
      "\" first, make it fail, then change the artifact until it passes. Test: the new check " ++
        "and the independent verifier both pass."]

def HypothesisContext.genericStrategies (c : HypothesisContext) : List String :=
  ["Narrow the scope: implement the smallest independently testable slice of \"" ++ c.title ++
      "\" and verify it before extending. Test: the slice passes its acceptance check on its own.",
    "Collect fresh diagnostics: rerun the failing step with verbose output captured to " ++
      "evidence and locate the first divergence from expected behaviour. Test: the root " ++
      "cause is identified in recorded output and the step is rerun.",
    "Revert to the last known-good workspace revision and reapply the change in small " ++
      "increments, running the failing check after each increment. Test: the increment that " ++
      "introduces the failure is identified and corrected.",
    "Replace the current approach with an alternative implementation strategy that avoids the " ++
      "failing component entirely. Test: the acceptance checks pass with the alternative.",
    "Check environmental assumptions (tool versions, configuration, required inputs) that the " ++
      "failing step depends on and correct the mismatch. Test: the assumption is recorded as " ++
      "evidence and the step passes."]

/-- What a generator may look at, as far as the deterministic one does. -/
structure RepairHypothesisRequest where
  target : RecoveryTarget
  failureClass : FailureClass
  coreCategory : CoreFailureClass
  failedCriteria : List String
  priorHypotheses : List String

/-- `createRuleBasedHypothesisGenerator().propose` -/
def RepairHypothesisRequest.ruleBased (request : RepairHypothesisRequest) : List String :=
  let target := request.target
  let criteria :=
    if request.failedCriteria ≠ [] then request.failedCriteria else target.acceptance.take 1
  let criterion := slice 160 (criteria.headD target.title)
  let artifacts := ", ".intercalate target.artifacts
  let context : HypothesisContext :=
    ⟨target.title, criterion, if artifacts = "" then "declared artifacts" else artifacts⟩
  let perCriterion :=
    if request.failureClass = .verification ∨ request.failedCriteria ≠ [] then
      (if criteria ≠ [] then criteria else [criterion]).flatMap fun c =>
        { context with criterion := slice 160 c }.verificationStrategies
    else []
  perCriterion ++ context.pipelineStrategies request.coreCategory ++ context.genericStrategies

/-! Hints, from the failure intelligence of `@wazir/core`. -/

structure FailureObservation where
  workspaceRevision : ℕ
  category : CoreFailureClass
  repeatedSignature : String

def pipelineStage : CoreFailureClass → Option ℕ
  | .buildFailed => some 1
  | .typecheckFailed => some 2
  | .lintFailed => some 3
  | .codeFailure => some 4
  | .testFailed => some 5
  | .artifactContractFailed => some 6
  | _ => none

inductive ProgressStatus where
  | none | sameFailure | regression | partialProgress | differentFailure
  deriving DecidableEq

def laterStage (a b : FailureObservation) : Bool :=
  match pipelineStage a.category, pipelineStage b.category with
  | some m, some n => m < n
  | _, _ => false

def compareObservations (prev curr : FailureObservation) : ProgressStatus :=
  if curr.repeatedSignature ≠ "" ∧ curr.repeatedSignature = prev.repeatedSignature then .sameFailure
  else if curr.workspaceRevision < prev.workspaceRevision || laterStage curr prev then .regression
  else if laterStage prev curr || prev.workspaceRevision < curr.workspaceRevision then
    .partialProgress
  else .differentFailure

def categoryHint : CoreFailureClass → Option String
  | .toolTimeout => some ("Execution timed out; check resource availability or complexity of " ++
    "the tool execution.")
  | .timeout => some "Operation timed out; confirm the dependency is responsive before retrying."
  | .transport => some ("Transport failure; confirm network reachability of the runtime before " ++
    "retrying.")
  | .rateLimit => some "Rate limited; wait for the provider window instead of retrying immediately."
  | .server => some "Upstream server error; retry with backoff and record the provider response."
  | .policyDenied => some ("Action denied by policy; verify permissions and security " ++
    "constraints for this operation.")
  | .approvalRequired => some ("Action requires explicit human approval; do not attempt an " ++
    "alternative route around the gate.")
  | .modelAdmissionDenied => some ("Model admission denied; the route is not authorized for " ++
    "this task.")
  | .authFailed => some ("Authentication failed; retrying cannot succeed until credentials are " ++
    "fixed by an operator.")
  | .quotaExhausted => some "Quota exhausted; only the quota reset or an operator can unblock this."
  | .buildFailed => some ("Build failed; read the first compiler error and fix it before " ++
    "anything downstream.")
  | .typecheckFailed => some ("Type check failed; inspect the reported type errors at their " ++
    "source locations.")
  | .lintFailed => some "Lint failed; apply the reported rule fixes without changing behaviour."
  | .testFailed => some ("Tests failed; reproduce the failing test in isolation and read its " ++
    "assertion diff.")
  | .artifactContractFailed => some ("Artifact contract failed; compare produced artifacts with " ++
    "the required names and schema.")
  | .staleEdit => some ("Edit was based on stale file content; reread the file before the next " ++
    "mutation.")
  | .workspaceConflict => some ("Workspace conflict; another writer touched the same files. " ++
    "Reconcile before retrying.")
  | .modelContextOverflow => some ("Context overflow; reduce the prompt or split the task into " ++
    "smaller steps.")
  | .modelProtocol => some ("Model output violated the protocol; tighten the output schema and " ++
    "validate it.")
  | .resourceExhausted => some "Resource exhausted; free resources or route to a different worker."
  | _ => none

/-- The hints for a history of observations, oldest first, and the one at hand. -/
def generateHints (history : List FailureObservation) (current : FailureObservation) :
    List String :=
  let status : ProgressStatus := match history.getLast? with
    | some prev => compareObservations prev current
    | none => .none
  let moved := history.getLast?.any fun prev => prev.workspaceRevision < current.workspaceRevision
  let progress := match status with
    | .sameFailure =>
      ["Same failure pattern detected (" ++ current.repeatedSignature ++
          "). Verify if the last mutation actually applied or was ignored.",
        if moved then
          "Mutation occurred but error persists; check for side-effects that might be " ++
            "reverting changes."
        else "No workspace mutation detected; reread current file state before another attempt."]
    | .partialProgress =>
      ["Progress detected: failure moved to " ++ current.category.name ++ " at revision " ++
        toString current.workspaceRevision ++ ". Continue with current strategy."]
    | .regression =>
      ["Regression detected: The workspace state has reverted or the error category has " ++
        "worsened. Investigate recent mutations."]
    | .differentFailure =>
      ["Failure pattern changed; evaluate if this is progress toward a fix or a new regression."]
    | .none => []
  progress ++ (categoryHint current.category).toList

end Wazir.Goals
