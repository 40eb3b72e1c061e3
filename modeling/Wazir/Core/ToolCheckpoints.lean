import Wazir.Core.StatusTransitions

/-! The event log of an execution and the tool calls it tells of (`toolCheckpoints` of
`services/executionEngine.ts`). Times are in milliseconds; a tool's input is its JSON text. -/

namespace Wazir.Core

inductive ToolSideEffectClass where
  | readOnly
  | idempotentWrite
  | nonIdempotentWrite
  deriving DecidableEq

inductive ToolCallState where
  | started
  | completed
  | failed
  | outcomeUnknown
  deriving DecidableEq

/-- Dispatched, and no outcome confirmed. -/
def ToolCallState.unresolved (s : ToolCallState) : Bool :=
  s = .started || s = .outcomeUnknown

inductive PolicyEffect where
  | allow
  | ask
  | deny
  deriving DecidableEq

inductive ToolOutcome where
  | applied
  | notApplied
  | undetermined
  deriving DecidableEq

structure ToolCallCheckpoint where
  stepId : String
  callId : String
  toolName : String
  input : String
  argumentsHash : String
  startedAt : ℤ
  finishedAt : Option ℤ
  state : ToolCallState
  sideEffectClass : ToolSideEffectClass
  workspaceRevision : ℕ
  legacyCorrelation : Bool
  deriving DecidableEq

/-- The proof a call was reconciled from. -/
structure Reconciliation where
  outcome : ToolOutcome
  evidence : String
  inspectedBy : String
  deriving DecidableEq

structure ToolResultData where
  callId : String
  tool : String
  ok : Bool
  failureClass : Option String
  policyEffect : Option PolicyEffect
  durationMs : Option ℕ
  reconciled : Option Reconciliation
  deriving DecidableEq

structure ExecutionLease where
  workerId : String
  epoch : ℕ
  token : String
  acquiredAt : ℤ
  renewedAt : ℤ
  expiresAt : ℤ
  ttlMs : ℤ
  released : Bool
  deriving DecidableEq

inductive ExecutionEventType where
  | created
  | scheduled
  | assigned
  | completed
  | failed
  | cancelled
  | paused
  | resumed
  | steered
  | completionRejected
  | toolStarted
  | toolCallStarted
  | toolCompleted
  | toolCallCompleted
  | toolCallFailed
  | toolCallOutcomeUnknown
  | toolUnknownOutcome
  | checkCompleted
  | buildCompleted
  | testCompleted
  | evaluationCompleted
  | workspaceMutated
  | fileChanged
  /-- `workspace.revision_changed` -/
  | revisionChanged
  /-- `workspace.revision.changed` -/
  | workspaceRevisionChanged
  | verificationInvalidated
  | evidenceStale
  | leaseAcquired
  | leaseRenewed
  | leaseReleased
  | modelRouteChanged
  | other (name : String)
  deriving DecidableEq

inductive ExecutionEventData where
  | dispatch (call : ToolCallCheckpoint)
  | result (r : ToolResultData)
  | lease (l : ExecutionLease)
  /-- Data that no event reader here looks into. -/
  | note (json : String)
  deriving DecidableEq

/-- A random id, told apart by the place of its event, or one that the caller gave. -/
inductive EventId where
  | random (index : ℕ)
  | given (id : String)
  deriving DecidableEq

structure ExecutionEventIdentity where
  eventId : Option String := none
  turnId : Option String := none
  stepId : Option String := none
  attemptId : Option String := none
  callId : Option String := none
  deriving DecidableEq

structure ExecutionEvent where
  id : EventId
  type : ExecutionEventType
  timestamp : ℤ
  workspaceRevision : ℕ
  identity : ExecutionEventIdentity
  data : ExecutionEventData
  deriving DecidableEq

/-! The fold of `toolCheckpoints`. -/

def toolOutcomeUnknown : String := "TOOL_OUTCOME_UNKNOWN"

/-- `calls.set(call.callId, call)` -/
def setCall (calls : List ToolCallCheckpoint) (call : ToolCallCheckpoint) :
    List ToolCallCheckpoint :=
  if calls.any (·.callId = call.callId) then
    calls.map fun c => if c.callId = call.callId then call else c
  else calls ++ [call]

def ToolResultData.denied (r : ToolResultData) : Bool :=
  r.policyEffect = some .deny || r.policyEffect = some .ask

/-- The call that a result is about: by its id or, without one, the first call still running of the
same tool. -/
def resolvedCall (calls : List ToolCallCheckpoint) (event : ExecutionEvent) (r : ToolResultData) :
    Option ToolCallCheckpoint :=
  let callId := event.identity.callId.getD r.callId
  if callId ≠ "" then calls.find? (·.callId = callId)
  else calls.find? fun c => c.state = .started && c.toolName = r.tool && !r.denied

def resultState (type : ExecutionEventType) (r : ToolResultData) : ToolCallState :=
  if type = .toolUnknownOutcome ∨ r.failureClass = some toolOutcomeUnknown then .outcomeUnknown
  else if r.ok then .completed
  else .failed

def settleCall (event : ExecutionEvent) (r : ToolResultData) (call : ToolCallCheckpoint) :
    ToolCallCheckpoint :=
  { call with
    state := resultState event.type r
    finishedAt := if event.type = .toolCompleted then some event.timestamp else call.finishedAt }

def applyResult (calls : List ToolCallCheckpoint) (event : ExecutionEvent) (r : ToolResultData) :
    List ToolCallCheckpoint :=
  match resolvedCall calls event r with
  | none => calls
  | some call => setCall calls (settleCall event r call)

def applyEvent (calls : List ToolCallCheckpoint) (event : ExecutionEvent) :
    List ToolCallCheckpoint :=
  match event.type, event.data with
  | .toolStarted, .dispatch call =>
    setCall calls { call with
      callId := event.identity.callId.getD call.callId
      stepId := event.identity.stepId.getD call.stepId
      state := .started
      finishedAt := none }
  | .toolCompleted, .result r => applyResult calls event r
  | .toolUnknownOutcome, .result r => applyResult calls event r
  | _, _ => calls

/-- The state of the dispatched calls, from the log alone. -/
def toolCheckpoints (log : List ExecutionEvent) : List ToolCallCheckpoint :=
  log.foldl applyEvent []

def ToolCallCheckpoint.unresolvedWrite (call : ToolCallCheckpoint) : Bool :=
  call.sideEffectClass ≠ .readOnly && call.state.unresolved

@[simp] theorem toolCheckpoints_nil : toolCheckpoints [] = [] := rfl

theorem toolCheckpoints_append (log : List ExecutionEvent) (event : ExecutionEvent) :
    toolCheckpoints (log ++ [event]) = applyEvent (toolCheckpoints log) event := by
  simp [toolCheckpoints]

/-! What the fold does to the calls. -/

section Calls

variable {calls : List ToolCallCheckpoint} {call c : ToolCallCheckpoint} {event : ExecutionEvent}
  {r : ToolResultData}

theorem mem_setCall : c ∈ setCall calls call ↔
    c = call ∨ c ∈ calls ∧ c.callId ≠ call.callId := by
  unfold setCall
  split_ifs with hany
  · obtain ⟨old, hold, hid⟩ := List.any_eq_true.mp hany
    rw [List.mem_map]
    constructor
    · rintro ⟨c', hc', rfl⟩
      split_ifs with heq
      · exact .inl rfl
      · exact .inr ⟨hc', heq⟩
    · rintro (rfl | ⟨hc, hne⟩)
      · exact ⟨old, hold, if_pos (of_decide_eq_true hid)⟩
      · exact ⟨c, hc, if_neg hne⟩
  · rw [List.mem_append, List.mem_singleton, or_comm]
    refine or_congr_right ⟨fun hc => ⟨hc, fun heq => hany ?_⟩, And.left⟩
    exact List.any_eq_true.mpr ⟨c, hc, decide_eq_true heq⟩

theorem setCall_nodup (h : (calls.map (·.callId)).Nodup) :
    ((setCall calls call).map (·.callId)).Nodup := by
  unfold setCall
  split_ifs with hany
  · rwa [List.map_map, List.map_congr_left (g := (·.callId))]
    intro c _
    simp only [Function.comp]
    split_ifs with heq
    · exact heq.symm
    · rfl
  · rw [List.map_append, List.map_singleton, List.nodup_append_comm]
    refine List.nodup_cons.mpr ⟨fun hmem => hany ?_, h⟩
    obtain ⟨c, hc, heq⟩ := List.mem_map.mp hmem
    exact List.any_eq_true.mpr ⟨c, hc, decide_eq_true heq⟩

theorem mem_of_resolvedCall (h : resolvedCall calls event r = some call) : call ∈ calls := by
  unfold resolvedCall at h
  simp only at h
  split_ifs at h
  · exact List.mem_of_find?_eq_some h
  · exact List.mem_of_find?_eq_some h

/-- A result settles the call of its id, or one that is still running. -/
theorem resolvedCall_eq_some (h : resolvedCall calls event r = some call) :
    call.callId = event.identity.callId.getD r.callId ∨ call.state = .started := by
  unfold resolvedCall at h
  simp only at h
  split_ifs at h
  · exact .inl (by simpa using List.find?_some h)
  · have := List.find?_some h
    simp only [Bool.and_eq_true, decide_eq_true_eq] at this
    exact .inr this.1.1

@[simp] theorem settleCall_callId : (settleCall event r call).callId = call.callId := rfl

@[simp] theorem settleCall_state : (settleCall event r call).state = resultState event.type r := rfl

@[simp] theorem settleCall_sideEffectClass :
    (settleCall event r call).sideEffectClass = call.sideEffectClass := rfl

/-- Each call after a result is one of before, or the one settled. -/
theorem mem_applyResult (h : c ∈ applyResult calls event r) : c ∈ calls ∨
    ∃ call, resolvedCall calls event r = some call ∧ c = settleCall event r call := by
  unfold applyResult at h
  split at h
  · exact .inl h
  · rename_i call hcall
    rcases mem_setCall.mp h with rfl | ⟨hold, -⟩
    · exact .inr ⟨call, hcall, rfl⟩
    · exact .inl hold

/-- Each call of before is there still, or is the one settled. -/
theorem applyResult_mem (hc : c ∈ calls) (hnodup : (calls.map (·.callId)).Nodup) :
    c ∈ applyResult calls event r ∨ resolvedCall calls event r = some c ∧
      settleCall event r c ∈ applyResult calls event r := by
  unfold applyResult
  split
  · exact .inl hc
  · rename_i call hcall
    by_cases heq : c.callId = call.callId
    · have : c = call :=
        List.inj_on_of_nodup_map hnodup hc (mem_of_resolvedCall hcall) heq
      subst this
      exact .inr ⟨hcall, mem_setCall.mpr (.inl rfl)⟩
    · exact .inl (mem_setCall.mpr (.inr ⟨hc, heq⟩))

/-- An event that tells of no call. -/
theorem applyEvent_other (hstarted : event.type ≠ .toolStarted)
    (hcompleted : event.type ≠ .toolCompleted) (hunknown : event.type ≠ .toolUnknownOutcome) :
    applyEvent calls event = calls := by
  unfold applyEvent
  split
  · rename_i h _
    exact absurd h hstarted
  · rename_i h _
    exact absurd h hcompleted
  · rename_i h _
    exact absurd h hunknown
  · rfl

theorem applyResult_nodup (h : (calls.map (·.callId)).Nodup) :
    ((applyResult calls event r).map (·.callId)).Nodup := by
  unfold applyResult
  split
  · exact h
  · exact setCall_nodup h

theorem applyEvent_nodup (h : (calls.map (·.callId)).Nodup) :
    ((applyEvent calls event).map (·.callId)).Nodup := by
  unfold applyEvent
  split
  · exact setCall_nodup h
  · exact applyResult_nodup h
  · exact applyResult_nodup h
  · exact h

theorem toolCheckpoints_nodup (log : List ExecutionEvent) :
    ((toolCheckpoints log).map (·.callId)).Nodup := by
  induction log using List.reverseRecOn with
  | nil => exact List.nodup_nil
  | append_singleton log event ih =>
    rw [toolCheckpoints_append]
    exact applyEvent_nodup ih

theorem toolCheckpoint_unique {log : List ExecutionEvent} {c c' : ToolCallCheckpoint}
    (h : c ∈ toolCheckpoints log) (h' : c' ∈ toolCheckpoints log) (hid : c.callId = c'.callId) :
    c = c' :=
  List.inj_on_of_nodup_map (toolCheckpoints_nodup log) h h' hid

end Calls

end Wazir.Core
