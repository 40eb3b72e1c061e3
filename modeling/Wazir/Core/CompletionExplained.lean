import Wazir.Core.BackedCompletion

/-! Why an execution counts as complete or as incomplete: the projection of its record in
`services/verificationEvidenceInspector.ts`, against what `setStatus` rejects a completion for. -/

namespace Wazir.Core

def EvidenceType.text : EvidenceType → String
  | .build => "BUILD"
  | .test => "TEST"
  | .lint => "LINT"
  | .typecheck => "TYPECHECK"
  | .staticAnalysis => "STATIC_ANALYSIS"
  | .staticCheck => "STATIC_CHECK"
  | .acceptance => "ACCEPTANCE"
  | .browser => "BROWSER"
  | .run => "RUN"

inductive EvidenceSlotStatus where
  | recorded (status : VerificationStatus)
  | stale
  | missing
  deriving DecidableEq

def EvidenceSlotStatus.text : EvidenceSlotStatus → String
  | .recorded .pass => "PASS"
  | .recorded .fail => "FAIL"
  | .recorded .error => "ERROR"
  | .stale => "STALE"
  | .missing => "MISSING"

/-- A member that is `UNKNOWN` is absent here. -/
structure EvidenceSlot where
  oracle : EvidenceType
  required : Bool
  status : EvidenceSlotStatus
  recordedStatus : Option VerificationStatus := none
  evidenceId : Option String := none
  command : Option String := none
  exitCode : Option ℤ := none
  revision : Option ℕ := none

structure VerificationInspection where
  currentRevision : ℕ
  workspaceDigest : Option String
  slots : List EvidenceSlot
  unresolvedToolCalls : ℕ
  completion : CompletionAssessment

structure WhyCompleteAnswer where
  complete : Bool
  chain : List String
  missing : List String

/-- A member of a slot as a text template prints it. -/
def known {α : Type} [ToString α] : Option α → String
  | some a => toString a
  | none => "UNKNOWN"

/-- A pass is one only if the exit code agrees. -/
def VerificationEvidence.recordedStatus (e : VerificationEvidence) : VerificationStatus :=
  let recorded := e.status.getD (if e.exitCode = 0 then .pass else .fail)
  if recorded = .pass ∧ e.exitCode ≠ 0 then .fail else recorded

def displayOracles : List EvidenceType := [.build, .test, .acceptance]

section Inspection

variable (evidenceId : VerificationEvidence → String) (contentFingerprint : Option String)

/-- The last record of an oracle, also where it is about another revision. -/
def buildSlot (record : ExecutionRecord) (currentRevision : ℕ) (required : List EvidenceType)
    (oracle : EvidenceType) : EvidenceSlot :=
  match (record.evidence.filter (·.oracle = oracle)).getLast? with
  | none => { oracle := oracle, required := oracle ∈ required, status := .missing }
  | some latest =>
    { oracle := oracle
      required := oracle ∈ required
      status :=
        if latest.workspaceRevision ≠ currentRevision then .stale
        else .recorded latest.recordedStatus
      recordedStatus := some latest.recordedStatus
      evidenceId := some (evidenceId latest)
      command := latest.command
      exitCode := some latest.exitCode
      revision := some latest.workspaceRevision }

def inspectVerificationEvidence (record : ExecutionRecord)
    (toolCheckpoints : List ToolCallCheckpoint) : VerificationInspection :=
  let completion := assessCompletionEvidence record.facts
  let add (oracles : List EvidenceType) (type : EvidenceType) : List EvidenceType :=
    if type ∈ oracles then oracles else oracles ++ [type]
  let oracles := (record.evidence.map (·.oracle)).foldl add
    (completion.required.foldl add displayOracles)
  let unresolvedToolCalls := toolCheckpoints.countP (·.state.unresolved)
  { currentRevision := completion.workspaceRevision
    workspaceDigest := contentFingerprint
    slots := oracles.map
      (buildSlot evidenceId record completion.workspaceRevision completion.required)
    unresolvedToolCalls := unresolvedToolCalls
    completion := { completion with
      eligible := completion.eligible && unresolvedToolCalls = 0 } }

end Inspection

/-- What the explanation says of a required oracle that is not satisfied. -/
def explainOracle (inspection : VerificationInspection) (oracle : EvidenceType) : String :=
  let rev := toString inspection.currentRevision
  oracle.text ++ ": " ++
    match inspection.slots.find? (·.oracle = oracle) with
    | none => "no evidence recorded for R" ++ rev
    | some slot =>
      match slot.status with
      | .missing => "no evidence recorded for R" ++ rev
      | .stale =>
        "STALE — evidence is for R" ++ known slot.revision ++ ", current revision is R" ++ rev
      | .recorded status =>
        (EvidenceSlotStatus.recorded status).text ++ " at R" ++ known slot.revision ++ " (exit " ++
          known slot.exitCode ++ ")"

def explainCompletion (inspection : VerificationInspection) : WhyCompleteAnswer :=
  let c := inspection.completion
  let rev := toString inspection.currentRevision
  if c.eligible then
    { complete := true
      chain :=
        ["Workspace revision R" ++ rev ++ " (digest " ++ known inspection.workspaceDigest ++ ")"] ++
          ((inspection.slots.filter fun slot =>
            slot.required && slot.status = .recorded .pass).map fun slot =>
            slot.oracle.text ++ " " ++ slot.evidenceId.getD "undefined" ++ " — `" ++
              known slot.command ++ "` exit " ++ known slot.exitCode ++ " at R" ++
              known slot.revision) ++
          (if c.required.isEmpty then
            ["No required oracle evidence; legacy completion eligibility does not establish " ++
              "semantic task success"]
          else []) ++
          ["All dispatched tool calls reconciled"]
      missing := [] }
  else
    { complete := false
      chain := []
      missing :=
        c.missing.map (explainOracle inspection) ++
          (c.missingCriteria.map fun id =>
            "ACCEPTANCE: " ++ id ++ " requires current evidence or human review") ++
          (if c.evaluationInvalid then
            ["EVALUATION: controller evaluation failed or is not bound to R" ++ rev]
          else []) ++
          (if c.evaluationMissing then
            ["EVALUATION: files changed but no controller evaluation recorded for R" ++ rev]
          else []) ++
          (if inspection.unresolvedToolCalls > 0 then
            ["TOOL_OUTCOME_UNKNOWN: " ++ toString inspection.unresolvedToolCalls ++
              " dispatched tool call(s) unreconciled"]
          else []) }

/-! What stands in the way of a completion. -/

inductive Blocker where
  | oracle (type : EvidenceType)
  | criterion (id : String)
  | evaluation
  | toolCalls

/-- How an item that names the blocker begins. -/
def Blocker.heading : Blocker → String
  | .oracle type => type.text ++ ": "
  | .criterion id => "ACCEPTANCE: " ++ id ++ " "
  | .evaluation => "EVALUATION: "
  | .toolCalls => "TOOL_OUTCOME_UNKNOWN: "

def Blocker.NamedBy (b : Blocker) (item : String) : Prop := ∃ rest, item = b.heading ++ rest

/-- The blocker is one for the engine's record as it stands. -/
def Blocker.Blocks (m : ExecutionEngine) : Blocker → Prop
  | .oracle type =>
    type ∈ m.record.acceptance.requiredEvidence ∧ ¬ OraclePasses m.record.facts type
  | .criterion id =>
    ∃ c ∈ m.record.acceptance.criteria, c.id = id ∧
      missingCriterion m.record.evidence m.record.revision c
  | .evaluation =>
    (∃ e, m.record.evaluation = some e ∧
      ¬ (e.success ∧ e.workspaceRevision = some m.record.revision)) ∨
    (m.record.filesChanged ≠ [] ∧ m.record.acceptance.requiredEvidence = [] ∧
      m.record.evaluation = none)
  | .toolCalls => ∃ call ∈ m.record.toolCheckpoints, call.state.unresolved

section Oracles

variable {f : CompletionFacts} {type : EvidenceType}

theorem supersede_ne_nil (latest : List VerificationEvidence) (item : VerificationEvidence) :
    supersede latest item ≠ [] := by
  unfold supersede
  split_ifs with hany
  · intro hnil
    rw [List.map_eq_nil_iff.mp hnil] at hany
    cases hany
  · simp

theorem foldl_supersede_ne_nil {items latest : List VerificationEvidence}
    (h : latest ≠ [] ∨ items ≠ []) : items.foldl supersede latest ≠ [] := by
  induction items generalizing latest with
  | nil => exact h.resolve_right (absurd rfl)
  | cons item rest ih => exact ih (.inl (supersede_ne_nil latest item))

theorem oracleSatisfied_of_passes (h : OraclePasses f type) :
    oracleSatisfied f.evidence f.revision type = true := by
  obtain ⟨⟨e, he, hrevision, horacle⟩, hall⟩ := h
  have hcurrent : e ∈ f.evidence.filter fun e =>
      e.workspaceRevision = f.revision && e.oracle = type :=
    List.mem_filter.mpr ⟨he, by simp [hrevision, horacle]⟩
  have hne : latestEvidenceAtRevision f.evidence f.revision type ≠ [] :=
    foldl_supersede_ne_nil (.inr (List.ne_nil_of_mem hcurrent))
  simp only [oracleSatisfied, Bool.and_eq_true, Bool.not_eq_true', List.all_eq_true]
  exact ⟨by simpa using hne, hall⟩

end Oracles

section Explained

variable {m : ExecutionEngine} {evidenceId : VerificationEvidence → String}
  {contentFingerprint : Option String}

/-- The projection of the engine's own record, with the engine's checkpoints. -/
def ExecutionEngine.inspect (m : ExecutionEngine) (evidenceId : VerificationEvidence → String)
    (contentFingerprint : Option String) : VerificationInspection :=
  inspectVerificationEvidence evidenceId contentFingerprint m.record m.record.toolCheckpoints

theorem inspect_eligible :
    (m.inspect evidenceId contentFingerprint).completion.eligible = true ↔
      m.completionRefusal none = none := by
  have hcalls : m.record.toolCheckpoints.countP (·.state.unresolved) = 0 ↔
      ¬ m.record.toolCheckpoints.any (·.state.unresolved) = true := by
    simp [List.countP_eq_zero]
  simp only [ExecutionEngine.inspect, inspectVerificationEvidence, Bool.and_eq_true,
    decide_eq_true_eq, hcalls, ExecutionEngine.completionRefusal]
  by_cases hany : m.record.toolCheckpoints.any (·.state.unresolved) = true
  · simp only [hany, not_true, and_false, if_true, reduceCtorEq]
  · by_cases heligible : (assessCompletionEvidence m.record.facts).eligible = true
    · simp [hany, heligible]
    · simp [hany, heligible]

theorem Eligible.criterion_found {f : CompletionFacts} (h : (assessCompletionEvidence f).eligible)
    {c : AcceptanceCriterion} (hc : c ∈ f.contract.criteria) :
    missingCriterion f.evidence f.revision c = false := by
  simp only [assessCompletionEvidence, missingAcceptanceCriteria, Bool.and_eq_true,
    List.isEmpty_iff, List.map_eq_nil_iff, List.filter_eq_nil_iff] at h
  simpa using h.1.1.2 c hc

/-- A record that a blocker stands in the way of is refused. -/
theorem refused_of_blocks {b : Blocker} (h : b.Blocks m) : m.completionRefusal none ≠ none := by
  intro hnone
  have heligible : (assessCompletionEvidence m.record.facts).eligible = true := by
    have hboth := (@inspect_eligible m (fun _ => "") none).mpr hnone
    exact (Bool.and_eq_true_iff.mp hboth).1
  obtain ⟨hcalls, hshown⟩ := completionRefusal_eq_none hnone
  cases b with
  | oracle type => exact h.2 (hshown.oracles type h.1)
  | criterion id =>
    obtain ⟨c, hc, -, hmissing⟩ := h
    have hfound := Eligible.criterion_found heligible hc
    exact Bool.false_ne_true (hfound.symm.trans hmissing)
  | evaluation =>
    rcases h with ⟨e, he, hinvalid⟩ | ⟨hfiles, hrequired, hevaluation⟩
    · exact hinvalid (hshown.evaluation e he)
    · have hsome := hshown.evaluated hfiles hrequired
      rw [show m.record.facts.evaluation = none from hevaluation] at hsome
      cases hsome
  | toolCalls =>
    obtain ⟨call, hcall, hunresolved⟩ := h
    rw [hcalls call hcall] at hunresolved
    cases hunresolved

/-- An item that is a heading in one piece with the text after it. -/
theorem headed {b : Blocker} {opening tail : String} (text : String)
    (h : opening = b.heading ++ text) : b.NamedBy (opening ++ tail) :=
  ⟨text ++ tail, by rw [h, String.append_assoc]⟩

/-- Every item of an explanation names something that stands in the way. -/
theorem explained_blocks {item : String}
    (h : item ∈ (explainCompletion (m.inspect evidenceId contentFingerprint)).missing) :
    ∃ b : Blocker, b.NamedBy item ∧ b.Blocks m := by
  by_cases heligible : (m.inspect evidenceId contentFingerprint).completion.eligible = true
  · rw [explainCompletion, if_pos heligible] at h
    cases h
  rw [explainCompletion, if_neg heligible] at h
  simp only [List.mem_append, List.mem_map, List.mem_ite_nil_right, List.mem_singleton] at h
  rcases h with (((⟨type, htype, rfl⟩ | ⟨id, hid, rfl⟩) | ⟨hinvalid, rfl⟩) | ⟨hmissing, rfl⟩) |
    ⟨hcalls, rfl⟩
  · obtain ⟨hrequired, hfails⟩ := List.mem_filter.mp htype
    refine ⟨.oracle type, ⟨_, rfl⟩, hrequired, ?_⟩
    intro hpasses
    rw [oracleSatisfied_of_passes hpasses] at hfails
    cases hfails
  · obtain ⟨c, hc, rfl⟩ := List.mem_map.mp hid
    obtain ⟨hmem, hmissing⟩ := List.mem_filter.mp hc
    refine ⟨.criterion c.id, ⟨"requires current evidence or human review", ?_⟩, c, hmem, rfl,
      hmissing⟩
    simp only [Blocker.heading, String.append_assoc]
    rfl
  · refine ⟨.evaluation, headed "controller evaluation failed or is not bound to R" (by decide),
      .inl ?_⟩
    obtain ⟨e, he, hfails⟩ := (Option.any_eq_true _ _).mp hinvalid
    refine ⟨e, he, ?_⟩
    rintro ⟨hsuccess, hrevision⟩
    simp [hsuccess, hrevision, ExecutionRecord.facts] at hfails
  · refine ⟨.evaluation,
      headed "files changed but no controller evaluation recorded for R" (by decide), .inr ?_⟩
    simpa [ExecutionEngine.inspect, inspectVerificationEvidence, assessCompletionEvidence,
      ExecutionRecord.facts, and_assoc] using hmissing
  · exact ⟨.toolCalls, headed _ rfl, List.countP_pos_iff.mp hcalls⟩

theorem assessed_eligible (f : CompletionFacts) : (assessCompletionEvidence f).eligible =
    ((assessCompletionEvidence f).missing.isEmpty &&
      (assessCompletionEvidence f).missingCriteria.isEmpty &&
      !(assessCompletionEvidence f).evaluationInvalid &&
      !(assessCompletionEvidence f).evaluationMissing) := rfl

/-- With nothing to explain the record is eligible. -/
theorem eligible_of_unexplained
    (h : (explainCompletion (m.inspect evidenceId contentFingerprint)).missing = []) :
    (m.inspect evidenceId contentFingerprint).completion.eligible = true := by
  by_contra hnot
  rw [explainCompletion, if_neg hnot] at h
  simp only [List.append_eq_nil_iff, List.map_eq_nil_iff, ite_eq_right_iff, imp_false,
    List.cons_ne_nil, Bool.not_eq_true, gt_iff_lt, not_lt, Nat.le_zero] at h
  obtain ⟨⟨⟨⟨hmissing, hcriteria⟩, hinvalid⟩, hunevaluated⟩, hcalls⟩ := h
  have hgate := assessed_eligible m.record.facts
  rw [show (assessCompletionEvidence m.record.facts).missing = [] from hmissing,
    show (assessCompletionEvidence m.record.facts).missingCriteria = [] from hcriteria,
    show (assessCompletionEvidence m.record.facts).evaluationInvalid = false from hinvalid,
    show (assessCompletionEvidence m.record.facts).evaluationMissing = false from hunevaluated]
    at hgate
  exact hnot (Bool.and_eq_true_iff.mpr ⟨hgate, decide_eq_true hcalls⟩)

/-- The explanation and the gate agree: the projection calls a record eligible exactly when
`setStatus` would not reject its completion, and where it does not, the explanation has items and
each of them names something that `setStatus` rejects the completion for. -/
theorem explanation_agrees (m : ExecutionEngine) (evidenceId : VerificationEvidence → String)
    (contentFingerprint : Option String) :
    ((m.inspect evidenceId contentFingerprint).completion.eligible = true ↔
      m.completionRefusal none = none) ∧
    ((m.inspect evidenceId contentFingerprint).completion.eligible = false →
      (explainCompletion (m.inspect evidenceId contentFingerprint)).missing ≠ [] ∧
      ∀ item ∈ (explainCompletion (m.inspect evidenceId contentFingerprint)).missing,
        ∃ b : Blocker, b.NamedBy item ∧ b.Blocks m) ∧
    ∀ b : Blocker, b.Blocks m → m.completionRefusal none ≠ none := by
  refine ⟨inspect_eligible, fun hnot => ⟨?_, fun item => explained_blocks⟩,
    fun b => refused_of_blocks⟩
  intro hnil
  rw [eligible_of_unexplained hnil] at hnot
  cases hnot

end Explained

end Wazir.Core
