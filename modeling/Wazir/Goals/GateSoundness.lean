import Wazir.Goals.AcceptanceGate

/-! What a completed gate vouches for. `verify` resolves the criterion a check or a finding names
and stores its text, a signoff keeps the name it was given, and the gate resolves both. A text
that reads as a reference to another criterion is credited to that one; where no text does, every
criterion of a completed target has evidence of its own. -/

namespace Wazir.Goals

/-- The criterion a record was recorded against. -/
def recordedAgainst (acceptance : List String) (e : StoredEvidence) : Option String :=
  e.criterion.bind fun name =>
    if e.validationMethod ∉ humanMethods ∧ name ∈ acceptance then some name
    else resolveCriterion acceptance (some name)

/-- Evidence that settles a criterion. -/
structure Vouches (input : GateInput) (options : GateOptions) (ref : WorkspaceState)
    (criterion : String) (e : StoredEvidence) : Prop where
  listed : e ∈ input.evidence
  against : recordedAgainst input.target.acceptance e = some criterion
  run : e.runId = input.run.runId
  target : e.targetId = input.target.id
  attempt : e.attemptId = input.attempt.id
  graphRevision : e.graphRevision = input.run.graphRevision
  verdict : e.verdict = "PASS"
  revision : e.workspaceRevision = ref.workspaceRevision
  digests : ∀ a ∈ e.artifacts,
    (currentArtifact ref.artifacts a.uri).map ArtifactRef.digest = some a.digest
  validator : trim e.validatorIdentity ≠ "" ∧ e.validatorIdentity ≠ e.executorIdentity ∧
    e.validatorIdentity ∉ input.executors
  method : e.validationMethod ∈ deterministicMethods ∨ e.validationMethod ∈ humanMethods ∨
    e.validationMethod = "adversarial-review" ∧ options.acceptReviewerPass = true

/-- What the gate promises of a completed target. -/
structure GateSound (input : GateInput) (options : GateOptions) (ref : WorkspaceState) :
    Prop where
  reference : input.reference = some ref
  criteria : ∀ c ∈ input.target.acceptance, ∃ e, Vouches input options ref c e
  noFailure : ∀ e ∈ input.evidence, e.runId = input.run.runId → e.targetId = input.target.id →
    e.attemptId = input.attempt.id → e.graphRevision = input.run.graphRevision →
    isFresh e ref = true → e.verdict ≠ "FAIL"
  artifacts : ∀ raw ∈ input.target.artifacts, ∃ a, verifiedArtifact ref raw = some a ∧
    isSha256Digest a.digest = true ∧ ∃ n, a.sizeBytes = some n ∧ 0 < n

def Completes (input : GateInput) (options : GateOptions) : Prop :=
  ∃ v, evaluateGate input options = .ok v ∧ v.decision = .completed

/-- Every verified artifact that a declared one is found under has a size. -/
def Sized (input : GateInput) : Prop :=
  ∀ ref, input.reference = some ref → ∀ raw ∈ input.target.artifacts,
    ∀ a, verifiedArtifact ref raw = some a → a.sizeBytes ≠ none

/-- No criterion's text reads as a reference to another criterion. -/
def Unambiguous (acceptance : List String) : Prop :=
  ∀ c ∈ acceptance, ∀ c', resolveCriterion acceptance (some c) = some c' → c' = c

/-- Everything the rules look at before they let a target complete. -/
structure Clear (input : GateInput) (options : GateOptions) (ref : WorkspaceState) : Prop where
  reference : input.reference = some ref
  current : input.isStaleAttempt = false
  succeeded : input.attemptFailed = false
  noFailure : ∀ e ∈ input.fresh, e.verdict ≠ "FAIL"
  noProblem : ref.problems = []
  verified : input.fresh ≠ []
  present : ∀ raw ∈ input.target.artifacts, (verifiedArtifact ref raw).isSome = true
  valid : ∀ raw ∈ input.target.artifacts, invalidArtifact ref raw = none
  external : input.target.externalDependency = true →
    ∃ e ∈ input.fresh, input.countsAsPass options e = true ∧ e.validationMethod ∈ humanMethods
  approved : input.target.requiresApproval = true ∨ input.target.acceptance = [] →
    ∃ e ∈ input.fresh, input.countsAsPass options e = true ∧ e.validationMethod = "human-signoff"
  settled : ∀ c ∈ input.target.acceptance, (input.criterionVerdict options c).verdict = "PASS"

variable {e : StoredEvidence} {acceptance : List String} {c : String}

section Rules

variable {input : GateInput} {options : GateOptions} {ref : WorkspaceState}

theorem mem_fresh (href : input.reference = some ref) :
    e ∈ input.fresh ↔ e ∈ input.evidence ∧ e.runId = input.run.runId ∧
      e.targetId = input.target.id ∧ e.attemptId = input.attempt.id ∧
      e.graphRevision = input.run.graphRevision ∧ isFresh e ref = true := by
  simp only [GateInput.fresh, href, GateInput.considered, GateInput.scopedEvidence, List.mem_filter,
    Bool.and_eq_true, decide_eq_true_eq]
  tauto

theorem criterionVerdict_pass :
    (input.criterionVerdict options c).verdict = "PASS" ↔
      (∀ e ∈ input.fresh, resolveCriterion input.target.acceptance e.criterion = some c →
        e.verdict ≠ "FAIL") ∧
      ∃ e ∈ input.fresh, resolveCriterion input.target.acceptance e.criterion = some c ∧
        input.countsAsPass options e = true := by
  simp only [GateInput.criterionVerdict]
  split_ifs with hfail hpass hunknown
  · simp only [ne_eq, List.filter_eq_nil_iff, List.mem_filter] at hfail
    simp_all
  · simp only [ne_eq, List.filter_eq_nil_iff, List.mem_filter] at hfail hpass
    simp_all
  · simp only [ne_eq, List.filter_eq_nil_iff, List.mem_filter] at hfail hpass
    simp_all
  · simp only [ne_eq, List.filter_eq_nil_iff, List.mem_filter] at hfail hpass
    simp_all

/-- A filtered list of passing evidence that is not empty. -/
theorem passing_ne_nil {P : StoredEvidence → Prop} [DecidablePred P] :
    ((input.fresh.filter (input.countsAsPass options)).filter fun e => P e) ≠ [] ↔
      ∃ e ∈ input.fresh, input.countsAsPass options e = true ∧ P e := by
  simp only [ne_eq, List.filter_eq_nil_iff, List.mem_filter, decide_eq_true_eq, not_forall, not_not]
  constructor
  · rintro ⟨e, ⟨he, hpass⟩, hP⟩
    exact ⟨e, he, hpass, hP⟩
  · rintro ⟨e, he, hpass, hP⟩
    exact ⟨e, ⟨he, hpass⟩, hP⟩

theorem missing_nil : missingArtifacts ref input.target = [] ↔
    ∀ raw ∈ input.target.artifacts, (verifiedArtifact ref raw).isSome = true := by
  simp [missingArtifacts, List.filter_eq_nil_iff, Option.isSome_iff_ne_none]

theorem unsettled_nil : ((input.perCriterion options).filter fun c => c.verdict ≠ "PASS") = [] ↔
    ∀ c ∈ input.target.acceptance, (input.criterionVerdict options c).verdict = "PASS" := by
  simp [GateInput.perCriterion, List.filter_eq_nil_iff]

/-- A decision that does not complete is one that was not taken. -/
theorem passed_iff {p : Prop} [Decidable p] {decision : GateDecision} {reasons : List String}
    {rest : GateDecision × List String} (h : decision ≠ .completed) :
    (if p then (decision, reasons) else rest).1 = .completed ↔ ¬ p ∧ rest.1 = .completed := by
  split_ifs with hp
  · simp [h, hp]
  · simp [hp]

theorem decideVerified_completed :
    (input.decideVerified options ref).1 = .completed ↔
      (∀ raw ∈ input.target.artifacts, (verifiedArtifact ref raw).isSome = true) ∧
      (∀ raw ∈ input.target.artifacts, invalidArtifact ref raw = none) ∧
      (input.target.externalDependency = true →
        ∃ e ∈ input.fresh, input.countsAsPass options e = true ∧
          e.validationMethod ∈ humanMethods) ∧
      (input.target.requiresApproval = true ∨ input.target.acceptance = [] →
        ∃ e ∈ input.fresh, input.countsAsPass options e = true ∧
          e.validationMethod = "human-signoff") ∧
      ∀ c ∈ input.target.acceptance, (input.criterionVerdict options c).verdict = "PASS" := by
  rw [← missing_nil, ← List.filterMap_eq_nil_iff, ← unsettled_nil]
  simp only [← @passing_ne_nil input options]
  simp only [GateInput.decideVerified]
  rw [passed_iff (by decide), passed_iff (by decide), passed_iff (by decide), passed_iff (by decide),
    passed_iff (by decide), passed_iff (by decide)]
  tauto

/-- What stands before the rules about artifacts, approvals and criteria. -/
theorem decide_completed : (input.decide options).1 = .completed ↔
    input.isStaleAttempt = false ∧ input.attemptFailed = false ∧
      (∀ e ∈ input.fresh, e.verdict ≠ "FAIL") ∧ ∃ ref, input.reference = some ref ∧
        ref.problems = [] ∧ input.fresh ≠ [] ∧
        (input.decideVerified options ref).1 = .completed := by
  cases href : input.reference with
  | none =>
    simp only [GateInput.decide, href]
    split_ifs <;> simp
  | some ref =>
    simp only [GateInput.decide, href, Option.map_some, Option.getD_some]
    split_ifs with hrepair hfresh
    · simp only [Option.some.injEq, exists_eq_left', false_iff]
      rintro ⟨hstale, hfailed, hnofail, hproblems, -⟩
      rcases hrepair with h | h | ⟨e, he, h⟩ | h
      · simp [hstale] at h
      · simp [hfailed] at h
      · exact hnofail e he h
      · simp [hproblems] at h
    · simp [hfresh]
    · simp_all

theorem completes_iff : Completes input options ↔
    input.attempt.runId = input.run.runId ∧ input.attempt.targetId = input.target.id ∧
      ∃ ref, Clear input options ref := by
  have hdecide : Completes input options ↔ input.attempt.runId = input.run.runId ∧
      input.attempt.targetId = input.target.id ∧ (input.decide options).1 = .completed := by
    unfold Completes evaluateGate
    split_ifs with hbelongs <;> simp_all
    tauto
  rw [hdecide, decide_completed]
  refine and_congr_right fun _ => and_congr_right fun _ => ⟨?_, ?_⟩
  · rintro ⟨hstale, hfailed, hnofail, ref, href, hproblems, hfresh, hrules⟩
    rw [decideVerified_completed] at hrules
    obtain ⟨hpresent, hvalid, hexternal, happroved, hsettled⟩ := hrules
    exact ⟨ref, href, hstale, hfailed, hnofail, hproblems, hfresh, hpresent, hvalid, hexternal,
      happroved, hsettled⟩
  · rintro ⟨ref, h⟩
    refine ⟨h.current, h.succeeded, h.noFailure, ref, h.reference, h.noProblem, h.verified, ?_⟩
    rw [decideVerified_completed]
    exact ⟨h.present, h.valid, h.external, h.approved, h.settled⟩

theorem resolveCriterion_mem {name : Option String} (h : resolveCriterion acceptance name = some c) :
    c ∈ acceptance := by
  cases name with
  | none => cases h
  | some ref =>
    simp only [resolveCriterion] at h
    split at h
    · cases h
    · exact List.mem_of_getElem? h
    · split_ifs at h with hmem
      cases h
      exact hmem

/-- Where no text is ambiguous, a record is credited to what it was recorded against. -/
theorem recordedAgainst_resolved (hun : Unambiguous acceptance)
    (h : resolveCriterion acceptance e.criterion = some c) :
    recordedAgainst acceptance e = some c := by
  obtain ⟨name, hname⟩ : ∃ name, e.criterion = some name := by
    cases hcrit : e.criterion with
    | none =>
      rw [hcrit] at h
      cases h
    | some name => exact ⟨name, rfl⟩
  rw [hname] at h
  simp only [recordedAgainst, hname, Option.bind_some]
  split_ifs with hstored
  · rw [hun name hstored.2 c h]
  · exact h

theorem recordedAgainst_stored {name : String} (hmethod : e.validationMethod ∉ humanMethods)
    (hname : e.criterion = some name) (hmem : name ∈ acceptance) :
    recordedAgainst acceptance e = some name := by
  simp [recordedAgainst, hname, hmethod, hmem]

theorem recordedAgainst_signed {name : String} (hmethod : e.validationMethod ∈ humanMethods)
    (hname : e.criterion = some name) :
    recordedAgainst acceptance e = resolveCriterion acceptance (some name) := by
  simp [recordedAgainst, hname, hmethod]

theorem vouches_of_counts (hun : Unambiguous input.target.acceptance)
    (href : input.reference = some ref) (hfresh : e ∈ input.fresh)
    (hpass : input.countsAsPass options e = true)
    (hcredit : resolveCriterion input.target.acceptance e.criterion = some c) :
    Vouches input options ref c e := by
  obtain ⟨hlisted, hrun, htarget, hattempt, hgraph, hbound⟩ := (mem_fresh href).mp hfresh
  simp only [isFresh, Bool.and_eq_true, decide_eq_true_eq, List.all_eq_true] at hbound
  simp only [GateInput.countsAsPass, GateInput.independent, isSelfReport, Bool.and_eq_true,
    Bool.or_eq_true, decide_eq_true_eq, Bool.not_eq_true', Bool.or_eq_false_iff,
    decide_eq_false_iff_not] at hpass
  obtain ⟨⟨hverdict, ⟨⟨hself, hblank⟩, hown⟩, hseen⟩, hmethod⟩ := hpass
  refine ⟨hlisted, recordedAgainst_resolved hun hcredit, hrun, htarget, hattempt, hgraph, hverdict,
    hbound.1, hbound.2, ⟨hblank, hown, hseen⟩, ?_⟩
  rcases hmethod with (h | h) | h
  · exact .inl h
  · exact .inr (.inl h.1)
  · exact .inr (.inr h)

theorem invalidArtifact_none {raw : String} {a : ArtifactRef}
    (hfound : verifiedArtifact ref raw = some a) (h : invalidArtifact ref raw = none) :
    a.sizeBytes ≠ some 0 ∧ isSha256Digest a.digest = true := by
  simp only [invalidArtifact, hfound, Option.bind_some] at h
  split_ifs at h with hzero hdigest
  exact ⟨hzero, by simpa using hdigest⟩

theorem clear_sound (hclear : Clear input options ref) (hsized : Sized input)
    (hun : Unambiguous input.target.acceptance) : GateSound input options ref := by
  refine ⟨hclear.reference, fun c hc => ?_, fun e he hrun htarget hattempt hgraph hbound => ?_,
    fun raw hraw => ?_⟩
  · have hsettled := hclear.settled c hc
    rw [criterionVerdict_pass] at hsettled
    obtain ⟨-, e, he, hcredit, hpass⟩ := hsettled
    exact ⟨e, vouches_of_counts hun hclear.reference he hpass hcredit⟩
  · exact hclear.noFailure e
      ((mem_fresh hclear.reference).mpr ⟨he, hrun, htarget, hattempt, hgraph, hbound⟩)
  · obtain ⟨a, ha⟩ := Option.isSome_iff_exists.mp (hclear.present raw hraw)
    obtain ⟨hzero, hdigest⟩ := invalidArtifact_none ha (hclear.valid raw hraw)
    obtain ⟨n, hn⟩ := Option.ne_none_iff_exists'.mp (hsized ref hclear.reference raw hraw a ha)
    refine ⟨a, ha, hdigest, n, hn, ?_⟩
    rcases Nat.eq_zero_or_pos n with h | h
    · exact absurd (h ▸ hn) hzero
    · exact h

theorem sized_of_sound (h : GateSound input options ref) : Sized input := by
  intro ref' href' raw hraw a ha
  obtain rfl : ref = ref' := Option.some.inj (h.reference.symm.trans href')
  obtain ⟨a', ha', -, n, hn, -⟩ := h.artifacts raw hraw
  obtain rfl : a = a' := Option.some.inj (ha.symm.trans ha')
  simp [hn]

end Rules

/-! A target with an ambiguous text: a check for it is credited to the other criterion, and
signoffs by number settle all the rest. -/

def numberedName (i : ℕ) : String := "#" ++ toString (i + 1)

theorem referenceNumber_numbered (i : ℕ) : referenceNumber (numberedName i) = some (i + 1) := by
  have hlist : (numberedName i).toList = '#' :: Nat.toDigits 10 (i + 1) := by
    simp [numberedName, Nat.toString_eq_repr, Nat.toList_repr]
  have hdigits : ∀ c ∈ Nat.toDigits 10 (i + 1), c.isDigit = true :=
    fun c hc => Nat.isDigit_of_mem_toDigits (by omega) (by omega) hc
  have htrim : trim (numberedName i) = numberedName i := by
    refine trim_eq_self fun c hc => ?_
    rw [hlist] at hc
    rcases List.mem_cons.mp hc with rfl | hc
    · decide
    · exact isWhiteSpace_digit (hdigits c hc)
  simp only [referenceNumber, htrim, hlist]
  rw [if_pos ⟨Nat.toDigits_ne_nil, List.all_eq_true.mpr hdigits⟩, Nat.ofDigitChars_ten_toDigits]

theorem resolve_numbered (acceptance : List String) (i : ℕ) :
    resolveCriterion acceptance (some (numberedName i)) = acceptance[i]? := by
  simp [resolveCriterion, referenceNumber_numbered]

def plainRun : GoalRunLedger where
  runId := "run-1"
  graphId := "wazir--small-graph"
  graphRevision := 1
  graphDigest := ""
  status := .running
  ledgerRevision := 1
  targets := ∅
  resource := ⟨0, 0, ⟨0, by decide⟩, ⟨3600000, by decide⟩⟩
  createdBy := "me"
  createdAt := ⟨0, by decide⟩
  updatedAt := ⟨0, by decide⟩

variable {options : GateOptions}

section Misfiled

variable (target : GoalTarget)

def plainAttempt : TargetAttempt where
  id := "attempt-1"
  runId := "run-1"
  targetId := target.id
  attempt := 1
  phase := .acceptanceGate
  startedAt := ⟨0, by decide⟩

/-- A PASS of the attempt at hand. -/
def plainPass (method validator : String) (name : String) : StoredEvidence where
  id := "ev-" ++ name
  validationMethod := method
  validatorIdentity := validator
  executorIdentity := "executor"
  verdict := "PASS"
  runId := "run-1"
  targetId := target.id
  attemptId := "attempt-1"
  graphRevision := 1
  workspaceRevision := "content:1"
  artifacts := []
  criterion := some name
  command := none
  limitations := []
  createdAt := ⟨0, by decide⟩

def plainDigest : String := "sha256:" ++ String.ofList (List.replicate 64 '0')

def plainState : WorkspaceState where
  workspaceRevision := "content:1"
  artifacts := target.artifacts.map fun raw => ⟨declaredUri raw, plainDigest, some 1⟩
  problems := []

/-- A command's PASS stored under `text`, and signoffs for every criterion but `other`. -/
def misfiledInput (text other : String) : GateInput where
  run := plainRun
  target := target
  attempt := plainAttempt target
  evidence := plainPass target "command" "verifier" text ::
    ((List.range target.acceptance.length).filter fun i => target.acceptance[i]? ≠ some other).map
      fun i => plainPass target "human-signoff" "user:me" (numberedName i)
  current := some (plainState target)
  executorIdentity := none

variable {target} {text other : String}

theorem misfiled_evidence (h : e ∈ (misfiledInput target text other).evidence) :
    e = plainPass target "command" "verifier" text ∨ ∃ i c, target.acceptance[i]? = some c ∧
      c ≠ other ∧ e = plainPass target "human-signoff" "user:me" (numberedName i) := by
  rcases List.mem_cons.mp h with h | h
  · exact .inl h
  · obtain ⟨i, hi, rfl⟩ := List.mem_map.mp h
    obtain ⟨hlt, hother⟩ := List.mem_filter.mp hi
    have hget := List.getElem?_eq_getElem (List.mem_range.mp hlt)
    refine .inr ⟨i, _, hget, fun heq => ?_, rfl⟩
    simp [hget, heq] at hother

theorem misfiled_pass (h : e ∈ (misfiledInput target text other).evidence) :
    ∃ method validator name, (method = "command" ∧ validator = "verifier" ∨
      method = "human-signoff" ∧ validator = "user:me") ∧
      e = plainPass target method validator name := by
  rcases misfiled_evidence h with rfl | ⟨i, c, -, -, rfl⟩
  · exact ⟨_, _, _, .inl ⟨rfl, rfl⟩, rfl⟩
  · exact ⟨_, _, _, .inr ⟨rfl, rfl⟩, rfl⟩

theorem misfiled_fresh (h : e ∈ (misfiledInput target text other).evidence) :
    e ∈ (misfiledInput target text other).fresh := by
  obtain ⟨method, validator, name, -, rfl⟩ := misfiled_pass h
  have href : (misfiledInput target text other).reference = some (plainState target) := rfl
  exact (mem_fresh href).mpr ⟨h, rfl, rfl, rfl, rfl, rfl⟩

theorem misfiled_executors {x : String} (h : x ∈ (misfiledInput target text other).executors) :
    x = "executor" := by
  simp only [GateInput.executors, List.mem_filter, List.mem_append, List.mem_map] at h
  obtain ⟨⟨e, he, rfl⟩ | h, -⟩ := h
  · obtain ⟨method, validator, name, -, rfl⟩ := misfiled_pass (List.mem_filter.mp he.1).1
    rfl
  · cases h

theorem misfiled_counts (h : e ∈ (misfiledInput target text other).evidence) :
    (misfiledInput target text other).countsAsPass options e = true := by
  obtain ⟨method, validator, name, hmethod, rfl⟩ := misfiled_pass h
  have hseen : validator ∉ (misfiledInput target text other).executors := by
    intro hx
    rcases hmethod with ⟨-, rfl⟩ | ⟨-, rfl⟩ <;> exact absurd (misfiled_executors hx) (by decide)
  have hself : String.ofList (toLowerCase method.toList) ∉ selfReportMethods := by
    rcases hmethod with ⟨rfl, -⟩ | ⟨rfl, -⟩ <;> decide
  have hname : trim validator ≠ "" ∧ validator ≠ "executor" := by
    rcases hmethod with ⟨-, rfl⟩ | ⟨-, rfl⟩ <;> decide
  have hcounts : method ∈ deterministicMethods ∨ method ∈ humanMethods := by
    rcases hmethod with ⟨rfl, -⟩ | ⟨rfl, -⟩ <;> decide
  simp only [GateInput.countsAsPass, GateInput.independent, isSelfReport, plainPass, hseen, hself,
    hname.1, hname.2, decide_true, decide_false, Bool.or_false, Bool.not_false, Bool.and_true,
    Bool.true_and, Bool.or_eq_true, ne_eq, not_false_eq_true, Bool.true_or]
  exact .inl (hcounts.imp decide_eq_true decide_eq_true)

theorem trimSlashes_last (cs : List Char) (rest : List Char) :
    (trimSlashes cs).reverse ≠ '/' :: rest := by
  intro h
  rw [trimSlashes, List.reverse_reverse] at h
  have := List.head?_dropWhile_not (fun c => decide (c = '/')) cs.reverse
  simp [h] at this

theorem verifiedUri_declared (raw : String) : verifiedUri (declaredUri raw) = declaredUri raw := by
  unfold verifiedUri
  split
  · rename_i rest h
    rw [declaredUri, String.toList_ofList] at h
    exact absurd h (trimSlashes_last _ _)
  · rfl

theorem plain_verified {raw : String} (h : raw ∈ target.artifacts) :
    ∃ uri, verifiedArtifact (plainState target) raw = some ⟨uri, plainDigest, some 1⟩ := by
  have hsome : (verifiedArtifact (plainState target) raw).isSome = true := by
    refine List.find?_isSome.mpr ⟨⟨declaredUri raw, plainDigest, some 1⟩, ?_, ?_⟩
    · exact List.mem_reverse.mpr (List.mem_map.mpr ⟨raw, h, rfl⟩)
    · simp [verifiedUri_declared]
  obtain ⟨a, ha⟩ := Option.isSome_iff_exists.mp hsome
  obtain ⟨raw', -, rfl⟩ := List.mem_map.mp (List.mem_reverse.mp (List.mem_of_find?_eq_some ha))
  exact ⟨_, ha⟩

theorem misfiled_clear (htext : text ∈ target.acceptance)
    (hread : resolveCriterion target.acceptance (some text) = some other) (hne : other ≠ text) :
    Clear (misfiledInput target text other) options (plainState target) := by
  set input := misfiledInput target text other
  have hpass : ∀ e ∈ input.evidence, e.verdict = "PASS" := by
    intro e he
    obtain ⟨method, validator, name, -, rfl⟩ := misfiled_pass he
    rfl
  have href : input.reference = some (plainState target) := rfl
  have hlisted : ∀ e ∈ input.fresh, e ∈ input.evidence := fun e he => ((mem_fresh href).mp he).1
  -- every criterion but the one misfiled has a signoff by its number
  have hsigned : ∀ c ∈ target.acceptance, c ≠ other → ∃ i, target.acceptance[i]? = some c ∧
      plainPass target "human-signoff" "user:me" (numberedName i) ∈ input.evidence := by
    intro c hc hother
    obtain ⟨i, hlt, hget⟩ := List.mem_iff_getElem.mp hc
    have hi : target.acceptance[i]? = some c := by rw [List.getElem?_eq_getElem hlt, hget]
    refine ⟨i, hi, List.mem_cons_of_mem _ (List.mem_map.mpr ⟨i, ?_, rfl⟩)⟩
    exact List.mem_filter.mpr ⟨List.mem_range.mpr hlt, by simp [hi, hother]⟩
  obtain ⟨i, -, hi⟩ := hsigned text htext (Ne.symm hne)
  refine ⟨rfl, rfl, rfl, fun e he => ?_, rfl, List.ne_nil_of_mem (misfiled_fresh hi),
    fun raw hraw => ?_, fun raw hraw => ?_, fun _ => ⟨_, misfiled_fresh hi, misfiled_counts hi, ?_⟩,
    fun _ => ⟨_, misfiled_fresh hi, misfiled_counts hi, rfl⟩, fun c hc => ?_⟩
  · rw [hpass e (hlisted e he)]
    decide
  · obtain ⟨uri, h⟩ := plain_verified (show raw ∈ target.artifacts from hraw)
    rw [h]
    rfl
  · obtain ⟨uri, h⟩ := plain_verified (show raw ∈ target.artifacts from hraw)
    have hdigest : isSha256Digest plainDigest = true := by decide
    simp [invalidArtifact, h, hdigest]
  · exact (by decide : "human-signoff" ∈ humanMethods)
  · refine criterionVerdict_pass.mpr ⟨fun e he _ => ?_, ?_⟩
    · rw [hpass e (hlisted e he)]
      decide
    by_cases hother : c = other
    · have hmem : plainPass target "command" "verifier" text ∈ input.evidence :=
        List.mem_cons_self
      exact ⟨_, misfiled_fresh hmem, by rw [hother]; exact hread, misfiled_counts hmem⟩
    · obtain ⟨j, hj, hmem⟩ := hsigned c hc hother
      exact ⟨_, misfiled_fresh hmem, (resolve_numbered _ _).trans hj, misfiled_counts hmem⟩

/-- The other criterion has no evidence of its own. -/
theorem misfiled_unsound {ref : WorkspaceState} (htext : text ∈ target.acceptance)
    (hread : resolveCriterion target.acceptance (some text) = some other) (hne : other ≠ text) :
    ¬ GateSound (misfiledInput target text other) options ref := by
  intro hsound
  obtain ⟨e, he⟩ := hsound.criteria other (resolveCriterion_mem hread)
  have hagainst := he.against
  rcases misfiled_evidence he.listed with rfl | ⟨i, c, hi, hc, rfl⟩
  · have hmethod : "command" ∉ humanMethods := by decide
    have hstored := recordedAgainst_stored
      (e := plainPass target "command" "verifier" text) hmethod rfl htext
    exact hne (Option.some.inj (hagainst.symm.trans hstored))
  · have hmethod : "human-signoff" ∈ humanMethods := by decide
    have hsigned : recordedAgainst target.acceptance
        (plainPass target "human-signoff" "user:me" (numberedName i)) = some c := by
      rw [recordedAgainst_signed hmethod rfl, resolve_numbered, hi]
    exact hc (Option.some.inj (hsigned.symm.trans hagainst))

end Misfiled

/-- A completed gate is right about every target whose criteria cannot be taken for references
to one another and whose verified artifacts have sizes, and about no other. -/
theorem gate_sound_iff (target : GoalTarget) (options : GateOptions) :
    ((∀ input : GateInput, input.target = target → Sized input → Completes input options →
      ∃ ref, GateSound input options ref) ↔ Unambiguous target.acceptance) ∧
    ∀ input : GateInput, (∃ ref, GateSound input options ref) → Sized input := by
  refine ⟨⟨fun hsound c hc c' hread => ?_, ?_⟩, fun input ⟨ref, h⟩ => sized_of_sound h⟩
  · by_contra hne
    have hclear : Clear (misfiledInput target c c') options (plainState target) :=
      misfiled_clear hc hread hne
    have hsized : Sized (misfiledInput target c c') := by
      intro ref href raw hraw a ha
      cases href
      obtain ⟨uri, h⟩ := plain_verified (show raw ∈ target.artifacts from hraw)
      obtain rfl := Option.some.inj (h.symm.trans ha)
      simp
    obtain ⟨ref, h⟩ := hsound _ rfl hsized (completes_iff.mpr ⟨rfl, rfl, _, hclear⟩)
    exact misfiled_unsound hc hread hne h
  · rintro hun input rfl hsized hcompletes
    obtain ⟨-, -, ref, hclear⟩ := completes_iff.mp hcompletes
    exact ⟨ref, clear_sound hclear hsized hun⟩

def misreadTarget : GoalTarget :=
  ⟨"t", [], 0, "shell", [], ["All tests pass", "#1"], false, false⟩

theorem misread_unsound :
    Completes (misfiledInput misreadTarget "#1" "All tests pass") ⟨false⟩ ∧
      ¬ ∃ ref, GateSound (misfiledInput misreadTarget "#1" "All tests pass") ⟨false⟩ ref := by
  have hread : resolveCriterion misreadTarget.acceptance (some "#1") = some "All tests pass" := by
    decide
  have htext : "#1" ∈ misreadTarget.acceptance := by decide
  refine ⟨completes_iff.mpr ⟨rfl, rfl, _, misfiled_clear htext hread (by decide)⟩, ?_⟩
  rintro ⟨ref, h⟩
  exact misfiled_unsound htext hread (by decide) h

end Wazir.Goals
