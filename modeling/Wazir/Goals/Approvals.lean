import Wazir.Shared.Strings
import Wazir.Goals.Contracts

/-! Approvals as blocker strings, and the controller's own check of the acceptance gate
(`controller/controller.ts`). A marker names the attempt it was asked for. -/

namespace Wazir.Goals

inductive ApprovalKind where
  | execute | complete
  deriving DecidableEq

inductive ApprovalState where
  | pending | granted | denied
  deriving DecidableEq

def ApprovalKind.name : ApprovalKind → String
  | .execute => "execute"
  | .complete => "complete"

def ApprovalState.name : ApprovalState → String
  | .pending => "pending"
  | .granted => "granted"
  | .denied => "denied"

structure ApprovalMarker where
  state : ApprovalState
  kind : ApprovalKind
  attempt : ℕ
  scope : String
  deriving DecidableEq

def approvalMarker (state : ApprovalState) (kind : ApprovalKind) (attempt : ℕ)
    (scope : Option String) : String :=
  "approval:" ++ state.name ++ ":" ++ kind.name ++ ":" ++ toString attempt ++ ":" ++ scope.getD ""

/-- What stands before and after the first colon. -/
def cutColon : List Char → Option (List Char × List Char)
  | [] => none
  | c :: cs => if c = ':' then some ([], cs) else (cutColon cs).map fun r => (c :: r.1, r.2)

def stateNamed (name : List Char) : Option ApprovalState :=
  [ApprovalState.pending, .granted, .denied].find? fun s => s.name.toList = name

def kindNamed (name : List Char) : Option ApprovalKind :=
  [ApprovalKind.execute, .complete].find? fun k => k.name.toList = name

def markerTag : List Char := "approval".toList

/-- The last two fields of a marker. -/
def parseScoped (state : ApprovalState) (kind : ApprovalKind) (cs : List Char) :
    Option ApprovalMarker :=
  match cutColon cs with
  | none => none
  | some (digits, scope) =>
    if digits ≠ [] ∧ digits.all Char.isDigit ∧ !scope.any isLineTerminator then
      some ⟨state, kind, Nat.ofDigitChars 10 digits 0, String.ofList scope⟩
    else none

def parseKind (state : ApprovalState) (cs : List Char) : Option ApprovalMarker :=
  match cutColon cs with
  | none => none
  | some (name, rest) => (kindNamed name).bind fun kind => parseScoped state kind rest

def parseState (cs : List Char) : Option ApprovalMarker :=
  match cutColon cs with
  | none => none
  | some (name, rest) => (stateNamed name).bind fun state => parseKind state rest

/-- `/^approval:(pending|granted|denied):(execute|complete):(\d+):(.*)$/`. -/
def parseApprovalMarker (marker : String) : Option ApprovalMarker :=
  match cutColon marker.toList with
  | none => none
  | some (head, rest) => if head = markerTag then parseState rest else none

theorem cutColon_append {cs rest : List Char} (h : ':' ∉ cs) :
    cutColon (cs ++ ':' :: rest) = some (cs, rest) := by
  induction cs with
  | nil => simp [cutColon]
  | cons c cs ih =>
    simp only [List.mem_cons, not_or] at h
    simp [cutColon, Ne.symm h.1, ih h.2]

theorem stateNamed_name (state : ApprovalState) : stateNamed state.name.toList = some state := by
  cases state <;> decide

theorem kindNamed_name (kind : ApprovalKind) : kindNamed kind.name.toList = some kind := by
  cases kind <;> decide

theorem colon_not_mem_digits (n : ℕ) : ':' ∉ Nat.toDigits 10 n := fun h =>
  absurd (Nat.isDigit_of_mem_toDigits (by omega) (by omega) h) (by decide)

theorem approvalMarker_toList (state : ApprovalState) (kind : ApprovalKind) (attempt : ℕ)
    (scope : Option String) : (approvalMarker state kind attempt scope).toList =
      markerTag ++ ':' :: (state.name.toList ++ ':' :: (kind.name.toList ++ ':' ::
        (Nat.toDigits 10 attempt ++ ':' :: (scope.getD "").toList))) := by
  have htag : "approval:".toList = markerTag ++ [':'] := by decide
  have hcolon : ":".toList = [':'] := by decide
  simp only [approvalMarker, String.toList_append, htag, hcolon, Nat.toString_eq_repr,
    Nat.toList_repr, List.append_assoc, List.cons_append, List.nil_append]

/-- A marker is read back as it was written, unless its scope has a line break. -/
theorem parse_approvalMarker {state : ApprovalState} {kind : ApprovalKind} {attempt : ℕ}
    {scope : Option String} :
    parseApprovalMarker (approvalMarker state kind attempt scope) =
      if (scope.getD "").toList.any isLineTerminator then none
      else some ⟨state, kind, attempt, scope.getD ""⟩ := by
  have htag : ':' ∉ markerTag := by decide
  have hstate : ':' ∉ state.name.toList := by cases state <;> decide
  have hkind : ':' ∉ kind.name.toList := by cases kind <;> decide
  have hdigits : (Nat.toDigits 10 attempt).all Char.isDigit = true :=
    List.all_eq_true.mpr fun c hc => Nat.isDigit_of_mem_toDigits (by omega) (by omega) hc
  rw [parseApprovalMarker, approvalMarker_toList, cutColon_append htag]
  simp only [if_true, parseState, cutColon_append hstate, stateNamed_name, Option.bind_some,
    parseKind, cutColon_append hkind, kindNamed_name, parseScoped,
    cutColon_append (colon_not_mem_digits attempt), hdigits, Nat.ofDigitChars_ten_toDigits,
    String.ofList_toList]
  split_ifs with hd hs hs <;> simp_all [Nat.toDigits_ne_nil]

/-- `grantedApproval`; `none` stands for `'any'` and for an attempt that is not given. -/
def grantedApproval (entry : TargetLedgerEntry) (kind : Option ApprovalKind)
    (attemptNo : Option ℕ) : Bool :=
  entry.blockers.any fun b => (parseApprovalMarker b).any fun m =>
    m.state = .granted && kind.all (· = m.kind) && attemptNo.all (· = m.attempt)

/-! The acceptance gate. -/

structure EvidenceRecord where
  id : String
  validationMethod : String
  validatorIdentity : String
  executorIdentity : String
  verdict : String

inductive GateDecision where
  | completed | repair | needsApproval | awaitingExternal | blocked
  deriving DecidableEq

structure GateCriterion where
  criterion : String
  verdict : String
  evidenceIds : List String

structure AcceptanceGateDecision where
  decision : GateDecision
  perCriterion : List GateCriterion
  reasons : List String

/-- The reason against one evidence id of a criterion. `byId` keeps the last record of an id. -/
def evidenceReasons (evidence : List EvidenceRecord) (executorIdentity id : String) : List String :=
  match evidence.reverse.find? fun e => e.id = id with
  | none => ["evidence " ++ id ++ " not produced by this verification"]
  | some ev =>
    if ev.verdict ≠ "PASS" then ["evidence " ++ id ++ " verdict " ++ ev.verdict]
    else if ev.validatorIdentity = ev.executorIdentity ∨ ev.validatorIdentity = executorIdentity then
      ["evidence " ++ id ++ " is not independent of the executor"]
    else []

def criterionReasons (evidence : List EvidenceRecord) (executorIdentity : String)
    (c : GateCriterion) : List String :=
  (if c.verdict ≠ "PASS" then ["criterion not PASS: " ++ c.criterion] else []) ++
    (if c.evidenceIds = [] then ["criterion has no evidence: " ++ c.criterion] else []) ++
    c.evidenceIds.flatMap (evidenceReasons evidence executorIdentity)

def gateReasons (gate : AcceptanceGateDecision) (evidence : List EvidenceRecord)
    (target : GoalTarget) (executorIdentity : String) : List String :=
  (if gate.perCriterion.length < target.acceptance.length then
    ["gate covered " ++ toString gate.perCriterion.length ++ " of " ++
      toString target.acceptance.length ++ " acceptance criteria"] else []) ++
    gate.perCriterion.flatMap (criterionReasons evidence executorIdentity)

/-- Deterministic defense-in-depth over the verification gate. -/
def enforceGate (gate : AcceptanceGateDecision) (evidence : List EvidenceRecord)
    (target : GoalTarget) (executorIdentity : String) (entry : Option TargetLedgerEntry) :
    GateDecision × List String :=
  if gate.decision ≠ .completed then (gate.decision, [])
  else
    let reasons := gateReasons gate evidence target executorIdentity
    if reasons ≠ [] then (.repair, reasons)
    else if target.externalDependency && !evidence.any fun e => e.verdict = "PASS" &&
        (e.validationMethod = "external-record" || e.validationMethod = "human-signoff") then
      (.awaitingExternal, ["external dependency requires an external-record or human-signoff PASS"])
    else if target.requiresApproval && !entry.any fun e => grantedApproval e none none then
      (.needsApproval, ["target requires explicit human approval before completion"])
    else (.completed, [])

/-! Principals and attempt ids. -/

def humanActor (principal : String) : Except Thrown String :=
  let p := trim principal
  if p = "" then fail .unauthorized "A principal is required for control-plane actions"
  else .ok (if p.startsWith "user:" then p else "user:" ++ p)

def attemptIdFor (runId : GoalRunId) (targetId : TargetId) (attempt : ℕ) : TargetAttemptId :=
  runId ++ ":" ++ targetId ++ ":" ++ toString attempt

end Wazir.Goals
