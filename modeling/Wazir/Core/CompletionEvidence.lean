import Mathlib.Tactic

/-! What a completion has to show: the latest evidence per check at the current workspace revision
(`services/evidencePolicy.ts`), the acceptance criteria (`services/executionContract.ts`) and the
rule that joins them (`assessCompletionEvidence`). -/

namespace Wazir.Core

inductive EvidenceType where
  | build
  | test
  | lint
  | typecheck
  | staticAnalysis
  | staticCheck
  | acceptance
  | browser
  | run
  deriving DecidableEq

inductive VerificationStatus where
  | pass
  | fail
  | error
  deriving DecidableEq

/-- The members of `metadata` that the rules read; a member of another type counts as absent. -/
structure EvidenceMetadata where
  criterionId : Option String := none
  target : Option String := none
  selfReported : Bool := false
  validationMethod : Option String := none
  validatorIdentity : Option String := none
  executorIdentity : Option String := none
  deriving DecidableEq

/-- `recordedAt` is how many events the log had when the evidence was recorded; the rules do not
look at it. -/
structure VerificationEvidence where
  oracle : EvidenceType
  workspaceRevision : ℕ
  command : Option String
  exitCode : ℤ
  status : Option VerificationStatus
  metadata : EvidenceMetadata
  recordedAt : ℕ
  deriving DecidableEq

/-- `recordedAt` as for evidence. -/
structure EvaluationResult where
  success : Bool
  workspaceRevision : Option ℕ
  recordedAt : ℕ
  deriving DecidableEq

inductive CriterionVerification where
  | evidence (type : EvidenceType)
  | humanReview
  deriving DecidableEq

structure AcceptanceCriterion where
  id : String
  mandatory : Option Bool
  verification : CriterionVerification
  deriving DecidableEq

structure AcceptanceContract where
  criteria : List AcceptanceCriterion
  requiredEvidence : List EvidenceType
  deriving DecidableEq

/-! Evidence at a revision. -/

/-- What makes two pieces of evidence runs of one check. -/
def VerificationEvidence.check (e : VerificationEvidence) :
    EvidenceType × String × String × String :=
  (e.oracle, e.command.getD "", e.metadata.criterionId.getD "", e.metadata.target.getD "")

/-- `latest.set(key, item)` of a map whose values are in the order their keys came. -/
def supersede (latest : List VerificationEvidence) (item : VerificationEvidence) :
    List VerificationEvidence :=
  if latest.any (·.check = item.check) then
    latest.map fun e => if e.check = item.check then item else e
  else latest ++ [item]

def latestEvidenceAtRevision (evidence : List VerificationEvidence) (revision : ℕ)
    (type : EvidenceType) : List VerificationEvidence :=
  (evidence.filter fun e => e.workspaceRevision = revision && e.oracle = type).foldl supersede []

def isSelfReportedEvidence (item : VerificationEvidence) : Bool :=
  let method := (item.metadata.validationMethod.getD "").toLower
  item.metadata.selfReported || method = "self-report" || method = "self_report" ||
    method = "model-claim" ||
    (item.metadata.validatorIdentity.isSome &&
      item.metadata.validatorIdentity = item.metadata.executorIdentity)

def evidencePassed (item : VerificationEvidence) : Bool :=
  item.exitCode = 0 && (item.status = none || item.status = some .pass) &&
    !isSelfReportedEvidence item

def oracleSatisfied (evidence : List VerificationEvidence) (revision : ℕ) (type : EvidenceType) :
    Bool :=
  let current := latestEvidenceAtRevision evidence revision type
  !current.isEmpty && current.all evidencePassed

/-- A criterion that no current evidence settles. -/
def missingCriterion (evidence : List VerificationEvidence) (revision : ℕ)
    (c : AcceptanceCriterion) : Bool :=
  if c.mandatory = some false then false
  else
    match c.verification with
    | .humanReview => true
    | .evidence type =>
      let found := (latestEvidenceAtRevision evidence revision type).filter fun e =>
        e.metadata.criterionId = some c.id
      found.isEmpty || !found.all evidencePassed

def missingAcceptanceCriteria (contract : AcceptanceContract) (evidence : List VerificationEvidence)
    (revision : ℕ) : List String :=
  (contract.criteria.filter (missingCriterion evidence revision)).map (·.id)

structure CompletionAssessment where
  workspaceRevision : ℕ
  required : List EvidenceType
  missing : List EvidenceType
  missingCriteria : List String
  evaluationInvalid : Bool
  evaluationMissing : Bool
  eligible : Bool

/-- What the rule reads of an execution record. -/
structure CompletionFacts where
  revision : ℕ
  contract : AcceptanceContract
  evidence : List VerificationEvidence
  evaluation : Option EvaluationResult
  filesChanged : List String
  deriving DecidableEq

def assessCompletionEvidence (f : CompletionFacts) : CompletionAssessment :=
  let missing := f.contract.requiredEvidence.filter fun type =>
    !oracleSatisfied f.evidence f.revision type
  let missingCriteria := missingAcceptanceCriteria f.contract f.evidence f.revision
  let evaluationInvalid := f.evaluation.any fun e =>
    !e.success || e.workspaceRevision ≠ some f.revision
  let evaluationMissing :=
    !f.filesChanged.isEmpty && f.contract.requiredEvidence.isEmpty && f.evaluation.isNone
  { workspaceRevision := f.revision
    required := f.contract.requiredEvidence
    missing := missing
    missingCriteria := missingCriteria
    evaluationInvalid := evaluationInvalid
    evaluationMissing := evaluationMissing
    eligible := missing.isEmpty && missingCriteria.isEmpty && !evaluationInvalid &&
      !evaluationMissing }

variable {f : CompletionFacts}

section Lemmas

variable {evidence : List VerificationEvidence} {revision : ℕ} {type : EvidenceType}

theorem mem_supersede {latest : List VerificationEvidence} {item e : VerificationEvidence}
    (h : e ∈ supersede latest item) : e ∈ latest ∨ e = item := by
  unfold supersede at h
  split_ifs at h
  · obtain ⟨e', he', rfl⟩ := List.mem_map.mp h
    split_ifs
    · exact .inr rfl
    · exact .inl he'
  · exact (List.mem_append.mp h).imp_right List.mem_singleton.mp

theorem mem_foldl_supersede {items latest : List VerificationEvidence} {e : VerificationEvidence}
    (h : e ∈ items.foldl supersede latest) : e ∈ latest ∨ e ∈ items := by
  induction items generalizing latest with
  | nil => exact .inl h
  | cons item rest ih =>
    rcases ih h with hlatest | hrest
    · rcases mem_supersede hlatest with hold | rfl
      · exact .inl hold
      · exact .inr List.mem_cons_self
    · exact .inr (List.mem_cons_of_mem _ hrest)

/-- What counts is evidence of the record, of that kind and bound to that revision. -/
theorem mem_latestEvidence {e : VerificationEvidence}
    (h : e ∈ latestEvidenceAtRevision evidence revision type) :
    e ∈ evidence ∧ e.workspaceRevision = revision ∧ e.oracle = type := by
  have hmem := (mem_foldl_supersede h).resolve_left List.not_mem_nil
  simpa [and_assoc] using hmem

/-- A required oracle with current evidence, all of it passing. -/
def OraclePasses (f : CompletionFacts) (type : EvidenceType) : Prop :=
  (∃ e ∈ f.evidence, e.workspaceRevision = f.revision ∧ e.oracle = type) ∧
    ∀ e ∈ latestEvidenceAtRevision f.evidence f.revision type, evidencePassed e

/-- A mandatory criterion with current evidence under its name, all of it passing. -/
def CriterionPasses (f : CompletionFacts) (c : AcceptanceCriterion) : Prop :=
  ∃ type, c.verification = .evidence type ∧
    (∃ e ∈ f.evidence, e.workspaceRevision = f.revision ∧ e.oracle = type ∧
      e.metadata.criterionId = some c.id) ∧
    ∀ e ∈ latestEvidenceAtRevision f.evidence f.revision type,
      e.metadata.criterionId = some c.id → evidencePassed e

theorem oraclePasses_of_satisfied (h : oracleSatisfied f.evidence f.revision type) :
    OraclePasses f type := by
  simp only [oracleSatisfied, Bool.and_eq_true, Bool.not_eq_true', List.all_eq_true] at h
  obtain ⟨hne, hall⟩ := h
  obtain ⟨e, rest, he⟩ := List.exists_cons_of_ne_nil (by simpa using hne)
  have hmem : e ∈ latestEvidenceAtRevision f.evidence f.revision type := he ▸ List.mem_cons_self
  exact ⟨⟨e, (mem_latestEvidence hmem).1, (mem_latestEvidence hmem).2⟩, hall⟩

theorem criterionPasses_of_not_missing {c : AcceptanceCriterion}
    (hmandatory : c.mandatory ≠ some false) (h : missingCriterion f.evidence f.revision c = false) :
    CriterionPasses f c := by
  simp only [missingCriterion, hmandatory, if_false] at h
  split at h
  · cases h
  · rename_i type htype
    simp only [Bool.or_eq_false_iff, Bool.not_eq_false', List.all_eq_true] at h
    obtain ⟨hne, hall⟩ := h
    obtain ⟨e, hmem, hid⟩ : ∃ e ∈ latestEvidenceAtRevision f.evidence f.revision type,
        e.metadata.criterionId = some c.id := by simpa using hne
    obtain ⟨hevidence, hrevision, horacle⟩ := mem_latestEvidence hmem
    refine ⟨type, htype, ⟨e, hevidence, hrevision, horacle, hid⟩, ?_⟩
    intro e' he' hid
    exact hall e' (List.mem_filter.mpr ⟨he', by simpa using hid⟩)

/-- What an eligible record shows. -/
structure Eligible (f : CompletionFacts) : Prop where
  oracles : ∀ type ∈ f.contract.requiredEvidence, OraclePasses f type
  criteria : ∀ c ∈ f.contract.criteria, c.mandatory ≠ some false → CriterionPasses f c
  evaluation : ∀ e, f.evaluation = some e → e.success ∧ e.workspaceRevision = some f.revision
  evaluated : f.filesChanged ≠ [] → f.contract.requiredEvidence = [] → f.evaluation.isSome

theorem eligible_of_assessment (h : (assessCompletionEvidence f).eligible) : Eligible f := by
  simp only [assessCompletionEvidence, missingAcceptanceCriteria, Bool.and_eq_true,
    List.isEmpty_iff, List.map_eq_nil_iff, List.filter_eq_nil_iff, Bool.not_eq_true',
    Bool.not_eq_true, Bool.not_eq_false] at h
  obtain ⟨⟨⟨hmissing, hcriteria⟩, hinvalid⟩, hevaluated⟩ := h
  refine ⟨fun type htype => oraclePasses_of_satisfied (hmissing type htype),
    fun c hc hmandatory => criterionPasses_of_not_missing hmandatory (hcriteria c hc),
    fun e he => ?_, fun hfiles hrequired => ?_⟩
  · simpa [he] using hinvalid
  · cases hevaluation : f.evaluation with
    | some e => rfl
    | none => simp [hfiles, hrequired, hevaluation] at hevaluated

end Lemmas

end Wazir.Core
