import Wazir.Checkpoints.HandoffsRestored

/-! What the evidence of a created handoff is evidence of, and when the handoff can be resumed. -/

namespace Wazir.Checkpoints.Handoff

open Core (ToolSideEffectClass ToolCallState ExecutionStatus)

theorem text_inj {a b : CheckName} : a.text = b.text ↔ a = b := by
  cases a <;> cases b <;> decide

/-- The last run of a check at a revision, and whether it went through. -/
def lastRun (checks : List CheckRun) (revision : JsNumber) (name : CheckName) : Option Bool :=
  ((checks.filter fun check => check.name = name &&
    (check.workspaceRevision.getD (.finite (-1))).same revision).getLast?).map (·.ok)

theorem lastRun_concat (checks : List CheckRun) (check : CheckRun) (revision : JsNumber)
    (name : CheckName) : lastRun (checks ++ [check]) revision name =
      if check.name = name ∧ (check.workspaceRevision.getD (.finite (-1))).same revision = true then
        some check.ok
      else lastRun checks revision name := by
  rw [lastRun, List.filter_append]
  split_ifs with h
  · have hkept : [check].filter (fun check => check.name = name &&
        (check.workspaceRevision.getD (.finite (-1))).same revision) = [check] := by simp [h]
    rw [hkept, List.getLast?_concat]
    rfl
  · have hdropped : [check].filter (fun check => check.name = name &&
        (check.workspaceRevision.getD (.finite (-1))).same revision) = [] := by
      simpa using h
    rw [hdropped, List.append_nil]
    rfl

/-- The map of checks holds the last run of each. -/
theorem latestChecks_get (checks : List CheckRun) (revision : JsNumber) (name : CheckName) :
    (checks.foldl (fun (m : KeyedMap Bool) check =>
      if (check.workspaceRevision.getD (.finite (-1))).same revision then m.set check.name.text check.ok
      else m) KeyedMap.empty).get name.text = lastRun checks revision name := by
  induction checks using List.reverseRecOn with
  | nil => rfl
  | append_singleton checks check ih =>
    rw [List.foldl_append, List.foldl_cons, List.foldl_nil, lastRun_concat]
    by_cases hrevision : (check.workspaceRevision.getD (.finite (-1))).same revision = true
    · rw [if_pos hrevision, KeyedMap.get_set, ih]
      simp [hrevision, text_inj, eq_comm]
    · rw [if_neg hrevision, ih, if_neg (fun h => hrevision h.2)]

theorem latestChecks_name (checks : List CheckRun) (revision : JsNumber) {key : String} {ok : Bool}
    (h : (checks.foldl (fun (m : KeyedMap Bool) check =>
      if (check.workspaceRevision.getD (.finite (-1))).same revision then m.set check.name.text check.ok
      else m) KeyedMap.empty).get key = some ok) : ∃ name : CheckName, key = name.text := by
  induction checks using List.reverseRecOn with
  | nil => cases h
  | append_singleton checks check ih =>
    rw [List.foldl_append, List.foldl_cons, List.foldl_nil] at h
    split_ifs at h with hrevision
    · rw [KeyedMap.get_set] at h
      split_ifs at h with hkey
      · exact ⟨check.name, hkey⟩
      · exact ih h
    · exact ih h

/-- A check passes at the revision of the record if its last run there went through. -/
theorem mem_currentPassing (r : ExecutionRecord) (now : Timestamp) {key : String} :
    key ∈ (reconstructExecutionState r now).currentPassing ↔
      ∃ name : CheckName, key = name.text ∧
        lastRun r.checks (reconstructedRevision r) name = some true := by
  simp only [reconstructExecutionState, mem_sortBy, List.mem_map, List.mem_filter, Prod.exists]
  constructor
  · rintro ⟨k, ok, ⟨hmem, hok⟩, rfl⟩
    rw [KeyedMap.mem_entries] at hmem
    obtain ⟨name, rfl⟩ := latestChecks_name _ _ hmem
    rw [latestChecks_get] at hmem
    exact ⟨name, rfl, hmem.trans (congrArg some hok)⟩
  · rintro ⟨name, rfl, hlast⟩
    exact ⟨name.text, true, ⟨(KeyedMap.mem_entries _).mpr ((latestChecks_get _ _ _).trans hlast), rfl⟩, rfl⟩

/-! The evidence that is listed. -/

theorem mem_addChecks (revision : JsNumber) (passing ids : List String) {id : String} :
    id ∈ passing.foldl (fun ids check =>
      let id := checkEvidenceId revision check
      if id ∈ ids then ids else ids ++ [id]) ids ↔
        id ∈ ids ∨ ∃ check ∈ passing, id = checkEvidenceId revision check := by
  induction passing generalizing ids with
  | nil => simp
  | cons check rest ih =>
    rw [List.foldl_cons, ih, List.exists_mem_cons_iff, ← or_assoc]
    refine or_congr_left ?_
    dsimp only
    split_ifs with hmem
    · refine ⟨.inl, fun h => ?_⟩
      rcases h with hid | rfl
      · exact hid
      · exact hmem
    · simp

/-- Each entry is a record that names no other revision and no other outcome, or a check. Checks are
picked at the revision of the record: of a handoff that names another one nothing more is said. -/
structure Backed (r : ExecutionRecord) (revision : JsNumber) (id : String) : Prop where
  backed : (∃ e ∈ r.evidence, e.id = id ∧
      (∀ n, (e.revision.orElse fun _ => e.workspaceRevision) = some n → n.same revision = true) ∧
      ∀ status, e.status = some status → status = .pass) ∨
    ∃ name : CheckName, id = checkEvidenceId revision name.text ∧
      ((reconstructedRevision r).same revision = true → lastRun r.checks revision name = some true)

theorem backed_of_listed (r : ExecutionRecord) (now : Timestamp) {revision : JsNumber} {id : String}
    (h : id ∈ verificationEvidenceIds r revision (reconstructExecutionState r now).currentPassing) :
    Backed r revision id := by
  rcases (mem_addChecks _ _ _).mp h with hrecord | ⟨check, hcheck, rfl⟩
  · obtain ⟨e, he, rfl⟩ := List.mem_map.mp hrecord
    obtain ⟨hmem, hcurrent⟩ := List.mem_filter.mp he
    rw [currentEvidence, Bool.and_eq_true] at hcurrent
    refine ⟨.inl ⟨e, hmem, rfl, fun n hn => ?_, fun status hstatus => ?_⟩⟩
    · rw [hn] at hcurrent
      exact hcurrent.1
    · simpa [hstatus] using hcurrent.2
  · obtain ⟨name, rfl, hlast⟩ := (mem_currentPassing r now).mp hcheck
    refine ⟨.inr ⟨name, rfl, fun hsame => ?_⟩⟩
    rw [JsNumber.same, Bool.and_eq_true, decide_eq_true_eq] at hsame
    exact hsame.1 ▸ hlast

/-! Resumability. -/

/-- No call that may have changed something is without an outcome. -/
def NoneBlocking (calls : List ToolCallCheckpoint) : Prop :=
  ∀ c ∈ calls, c.state.unresolved = true → c.sideEffectClass = .readOnly

/-- Every budget that is bounded has something left. -/
def SomethingLeft (remaining : List (String × Option JsNumber)) : Prop :=
  ∀ kv ∈ remaining, ∀ n, kv.2 = some n → n.le JsNumber.zero = false

theorem blocking_nil (calls : List ToolCallCheckpoint) :
    (unresolvedSideEffects calls).filter (fun c => c.sideEffectClass ≠ .readOnly) = [] ↔
      NoneBlocking calls := by
  rw [List.filter_eq_nil_iff, unresolvedSideEffects, List.forall_mem_map]
  simp [NoneBlocking]

theorem exhausted_nil (remaining : List (String × Option JsNumber)) :
    exhaustedBudgets remaining = [] ↔ SomethingLeft remaining := by
  rw [exhaustedBudgets, List.map_eq_nil_iff, List.filter_eq_nil_iff]
  refine forall₂_congr fun kv _ => ?_
  cases kv.2 <;> simp

theorem nonResumableReason_none (status : ExecutionStatus) (calls : List ToolCallCheckpoint)
    (remaining : List (String × Option JsNumber)) :
    nonResumableReason status (unresolvedSideEffects calls) remaining = none ↔
      status ≠ .completed ∧ status ≠ .cancelled ∧ NoneBlocking calls ∧ SomethingLeft remaining := by
  rw [← blocking_nil, ← exhausted_nil, nonResumableReason]
  split_ifs with hcompleted hcancelled hblocking hexhausted
  · exact iff_of_false (by simp) fun h => h.1 hcompleted
  · exact iff_of_false (by simp) fun h => h.2.1 hcancelled
  · exact iff_of_false (by simp) fun h => hblocking h.2.2.1
  · exact iff_of_false (by simp) fun h => hexhausted h.2.2.2
  · exact iff_of_true rfl ⟨hcompleted, hcancelled, not_not.mp hblocking, not_not.mp hexhausted⟩

section Create

variable {host : Host} {projectRoot : Option String} {service : Option (List ExecutionCheckpoint)}
  {engine : List ToolCallCheckpoint} {r : ExecutionRecord} {options : CreateOptions} {clock : Clock}

end Create

/-- An execution with runs of two checks, evidence of two revisions and what it used. -/
def testedRecord : ExecutionRecord :=
  { oneFileRecord "notes.txt" with
    checks := [⟨.test, "npm test", false, some (.finite 1)⟩, ⟨.lint, "npm run lint", true, some (.finite 1)⟩,
      ⟨.test, "npm test", true, some (.finite 1)⟩, ⟨.lint, "npm run lint", false, some (.finite 1)⟩]
    evidence := [⟨"ev-old", some (.finite 0), none, some .pass⟩, ⟨"ev-failed", some (.finite 1), none, some .fail⟩,
      ⟨"ev-passed", some (.finite 1), none, some .pass⟩]
    usage := some ⟨.finite 100, .finite 20, none⟩ }

/-- A call of a tool, as the engine knows it. -/
def engineCall (callId : String) (state : ToolCallState) (sideEffectClass : ToolSideEffectClass) :
    ToolCallCheckpoint :=
  ⟨"exec-1", callId, "step-1", "tool", .null, "hash", some noon, none, state, .finite 1,
    sideEffectClass, none⟩

def engineCalls : List ToolCallCheckpoint :=
  [engineCall "call-1" .started .readOnly, engineCall "call-2" .completed .nonIdempotentWrite]

def boundedOptions : CreateOptions :=
  { noOptions with budgetLimits := ⟨some (.finite 1000), some (.finite 5), none, some (.finite 1), none⟩ }

def completedRecord : ExecutionRecord := { oneFileRecord "notes.txt" with status := .completed }

end Wazir.Checkpoints.Handoff
