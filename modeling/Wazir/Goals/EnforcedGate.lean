import Wazir.Goals.Approvals

/-! What the controller's own check of a gate decision (`enforceGate`) vouches for. It counts the
rows of the decision against the acceptance criteria and never looks which criteria they name. -/

namespace Wazir.Goals

/-- `byId.get(id)`: of records that share an id the last counts. -/
def evidenceNamed (evidence : List EvidenceRecord) (id : String) : Option EvidenceRecord :=
  evidence.reverse.find? fun e => e.id = id

/-- The id of evidence of this verification whose validator is not the executor. -/
def IndependentEvidence (evidence : List EvidenceRecord) (executorIdentity id : String) : Prop :=
  ∃ ev, evidenceNamed evidence id = some ev ∧ ev.validatorIdentity ≠ ev.executorIdentity ∧
    ev.validatorIdentity ≠ executorIdentity

/-- What the check asks of an evidence id. -/
def BackedEvidence (evidence : List EvidenceRecord) (executorIdentity id : String) : Prop :=
  ∃ ev, evidenceNamed evidence id = some ev ∧ ev.verdict = "PASS" ∧
    ev.validatorIdentity ≠ ev.executorIdentity ∧ ev.validatorIdentity ≠ executorIdentity

/-- A row that says PASS on independent evidence. -/
structure PassingRow (evidence : List EvidenceRecord) (executorIdentity : String)
    (row : GateCriterion) : Prop where
  passed : row.verdict = "PASS"
  evidenced : row.evidenceIds ≠ []
  independent : ∀ id ∈ row.evidenceIds, IndependentEvidence evidence executorIdentity id

section

variable (gate : AcceptanceGateDecision) (evidence : List EvidenceRecord) (target : GoalTarget)
  (executorIdentity : String) (entry : Option TargetLedgerEntry)

/-- Each acceptance criterion has a passing row of its own. -/
def CoversTarget : Prop :=
  ∀ criterion ∈ target.acceptance, ∃ row ∈ gate.perCriterion,
    row.criterion = criterion ∧ PassingRow evidence executorIdentity row

/-- Each acceptance criterion is the one some row is about. -/
def NamesCriteria : Prop :=
  ∀ criterion ∈ target.acceptance, ∃ row ∈ gate.perCriterion, row.criterion = criterion

/-- What the check has against a row: its verdict, or evidence that is missing, unknown, not PASS
or the executor's own. -/
def FaultyRow (row : GateCriterion) : Prop :=
  row.verdict ≠ "PASS" ∨ row.evidenceIds = [] ∨
    ∃ id ∈ row.evidenceIds, ¬ BackedEvidence evidence executorIdentity id

def HasExternalRecord : Prop :=
  ∃ e ∈ evidence, e.verdict = "PASS" ∧
    (e.validationMethod = "external-record" ∨ e.validationMethod = "human-signoff")

/-- The grounds on which a decision is turned down. -/
inductive TurnedDown : Prop
  | decided (h : gate.decision ≠ .completed)
  | short (h : gate.perCriterion.length < target.acceptance.length)
  | faulty {row : GateCriterion} (mem : row ∈ gate.perCriterion)
      (h : FaultyRow evidence executorIdentity row)
  | external (needed : target.externalDependency = true) (h : ¬ HasExternalRecord evidence)
  | approval (needed : target.requiresApproval = true)
      (h : ¬ ∃ e, entry = some e ∧ grantedApproval e none none = true)

end

section

variable {gate : AcceptanceGateDecision} {evidence : List EvidenceRecord} {target : GoalTarget}
  {executorIdentity : String} {entry : Option TargetLedgerEntry}

theorem evidenceReasons_nil {id : String} :
    evidenceReasons evidence executorIdentity id = [] ↔
      BackedEvidence evidence executorIdentity id := by
  unfold evidenceReasons BackedEvidence evidenceNamed
  cases evidence.reverse.find? fun e => e.id = id with
  | none => simp
  | some ev =>
    by_cases hpass : ev.verdict = "PASS"
    · by_cases hown : ev.validatorIdentity = ev.executorIdentity ∨
          ev.validatorIdentity = executorIdentity
      · simp [hpass, hown]
        tauto
      · simpa [hpass, hown] using not_or.mp hown
    · simp [hpass]

theorem criterionReasons_nil {row : GateCriterion} :
    criterionReasons evidence executorIdentity row = [] ↔
      ¬ FaultyRow evidence executorIdentity row := by
  simp only [criterionReasons, FaultyRow, List.append_eq_nil_iff, List.flatMap_eq_nil_iff,
    evidenceReasons_nil, not_or, not_exists, not_and, not_not]
  simp [and_assoc]

theorem gateReasons_nil :
    gateReasons gate evidence target executorIdentity = [] ↔
      target.acceptance.length ≤ gate.perCriterion.length ∧
        ∀ row ∈ gate.perCriterion, ¬ FaultyRow evidence executorIdentity row := by
  simp [gateReasons, criterionReasons_nil]

/-- The check answers completed exactly when nothing turns the decision down. -/
theorem enforceGate_completes_iff :
    (enforceGate gate evidence target executorIdentity entry).1 = .completed ↔
      ¬ TurnedDown gate evidence target executorIdentity entry := by
  have hexternal : (evidence.any fun e => e.verdict = "PASS" &&
      (e.validationMethod = "external-record" || e.validationMethod = "human-signoff")) = true ↔
        HasExternalRecord evidence := by
    simp [HasExternalRecord]
  have happroved : (entry.any fun e => grantedApproval e none none) = true ↔
      ∃ e, entry = some e ∧ grantedApproval e none none = true := by
    cases entry <;> simp
  simp only [enforceGate]
  constructor
  · intro h hdown
    split_ifs at h with hdecision hreasons hext happ
    · exact hdecision h
    have hreasons := gateReasons_nil.mp (not_not.mp hreasons)
    cases hdown with
    | decided h => exact hdecision h
    | short h => omega
    | faulty mem h => exact hreasons.2 _ mem h
    | external needed h =>
      refine hext ?_
      rw [needed, Bool.true_and, Bool.not_eq_true', ← Bool.not_eq_true, hexternal]
      exact h
    | approval needed h =>
      refine happ ?_
      rw [needed, Bool.true_and, Bool.not_eq_true', ← Bool.not_eq_true, happroved]
      exact h
  · intro h
    split_ifs with hdecision hreasons hext happ
    · exact absurd (.decided hdecision) h
    · refine absurd (gateReasons_nil.mpr ⟨?_, fun row mem hrow => h (.faulty mem hrow)⟩) hreasons
      by_contra hshort
      exact h (.short (not_le.mp hshort))
    · rw [Bool.and_eq_true, Bool.not_eq_true', ← Bool.not_eq_true, hexternal] at hext
      exact absurd (.external hext.1 hext.2) h
    · rw [Bool.and_eq_true, Bool.not_eq_true', ← Bool.not_eq_true, happroved] at happ
      exact absurd (.approval happ.1 happ.2) h
    · rfl

theorem passingRow_of_not_faulty {row : GateCriterion}
    (h : ¬ FaultyRow evidence executorIdentity row) : PassingRow evidence executorIdentity row := by
  simp only [FaultyRow, not_or, not_exists, not_and, not_not] at h
  obtain ⟨passed, evidenced, backed⟩ := h
  refine ⟨passed, evidenced, fun id hid => ?_⟩
  obtain ⟨ev, hev, -, hown, hexecutor⟩ := backed id hid
  exact ⟨ev, hev, hown, hexecutor⟩

/-- The rows are what the check makes them out to be; that they name the criteria is all it takes
on trust. -/
theorem enforceGate_covers_iff (gate : AcceptanceGateDecision) (evidence : List EvidenceRecord)
    (target : GoalTarget) (executorIdentity : String) (entry : Option TargetLedgerEntry) :
    ((enforceGate gate evidence target executorIdentity entry).1 = .completed →
        CoversTarget gate evidence target executorIdentity) ↔
      NamesCriteria gate target ∨ TurnedDown gate evidence target executorIdentity entry := by
  rw [enforceGate_completes_iff]
  constructor
  · intro h
    by_cases hdown : TurnedDown gate evidence target executorIdentity entry
    · exact .inr hdown
    · refine .inl fun criterion hc => ?_
      obtain ⟨row, hrow, hname, -⟩ := h hdown criterion hc
      exact ⟨row, hrow, hname⟩
  · rintro (hnames | hdown) hclear
    · intro criterion hc
      obtain ⟨row, hrow, hname⟩ := hnames criterion hc
      exact ⟨row, hrow, hname, passingRow_of_not_faulty fun hf => hclear (.faulty hrow hf)⟩
    · exact absurd hdown hclear

end

namespace EnforcedGate

def target : GoalTarget where
  id := "parser"
  dependsOn := []
  priority := 1
  executor := "implement"
  artifacts := []
  acceptance := ["it builds", "its tests pass"]
  externalDependency := false
  requiresApproval := false

def evidence : List EvidenceRecord :=
  [⟨"ev-1", "command", "validator", "local-model", "PASS"⟩]

/-- Two rows about the one criterion. -/
def gate : AcceptanceGateDecision where
  decision := .completed
  perCriterion := [⟨"it builds", "PASS", ["ev-1"]⟩, ⟨"it builds", "PASS", ["ev-1"]⟩]
  reasons := []

end EnforcedGate

open EnforcedGate in
theorem repeated_row_completes :
    (enforceGate gate evidence target "local-model" none).1 = .completed ∧
      ¬ CoversTarget gate evidence target "local-model" := by
  refine ⟨by decide, fun h => ?_⟩
  obtain ⟨row, hrow, hname, -⟩ := h "its tests pass" (by decide)
  revert hname
  revert row
  decide

end Wazir.Goals
