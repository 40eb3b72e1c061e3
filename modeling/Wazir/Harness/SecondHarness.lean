import Wazir.Async.Machine
import Wazir.Core.ExecutionSystem
import Wazir.Harness.Attempts

/-! When a second harness is not started over side effects that nobody confirmed. The check reads the
record under the id of the request, and the dispatch may have created its record under another. -/

namespace Wazir.Harness

open Wazir.Core Async

/-- A dispatched write whose outcome is not known, as the engine would class it: what has no class of its
own is a write. -/
def ReportedCall.unresolvedWrite (call : ReportedCall) : Bool :=
  call.isUnknownOutcome && (call.provenance.get "sideEffectClass").string ≠ some "READ_ONLY"

/-- No write of the record waits for its outcome. -/
def quiet (engine : Engine) (executionId : String) : Bool :=
  (engine.records executionId).all fun r => !r.toolCheckpoints.any (·.unresolvedWrite)

/-- Neither the record of the dispatch nor the result before tells of an unresolved write. -/
def HarnessStart.safe (executionId : String) (start : HarnessStart) : Bool :=
  quiet start.engine executionId &&
    start.previous.all fun result => !result.toolCalls.any (·.unresolvedWrite)

/-- The check sees what was recorded and reported: the dispatch found the record of the request and the
engine can still read it, each reported write of unknown outcome names a tool that writes or its class,
and nobody leaves a write open while the next harness is resolved. -/
def SeesSideEffects (request : UnifiedExecutionRequest) (s : DispatchState) : DispatchEvent → Prop
  | .returned rawResult policy => request.canFallback policy rawResult = true →
      s.engineExecutionId = request.executionId ∧ s.engine.persistenceFailure = none ∧
        ∀ call ∈ rawResult.toolCalls, call.unresolvedWrite = true → call.isMutating = true
  | .others engine => s.phase = .resolvingNext → quiet engine s.engineExecutionId = true
  | _ => True

/-- What the check lets pass. -/
theorem quiet_of_unblocked {engine : Engine} {executionId : String} {result : UnifiedExecutionResult}
    (h : hasUnconfirmedMutatingSideEffects engine executionId result = none)
    (hread : engine.persistenceFailure = none) : quiet engine executionId = true ∧
      ∀ call ∈ result.toolCalls, ¬ (call.isMutating = true ∧ call.isUnknownOutcome = true) := by
  unfold hasUnconfirmedMutatingSideEffects at h
  split at h
  · cases h
  rename_i hrecord
  split at h
  · cases h
  rename_i hreported
  refine ⟨?_, fun call hcall => by simpa using List.find?_eq_none.mp hreported call hcall⟩
  have hrequire : engine.require executionId = engine.records executionId := by
    simp [Engine.require, hread]
  rw [hrequire] at hrecord
  unfold quiet
  cases hr : engine.records executionId with
  | none => rfl
  | some r =>
    rw [hr, Option.bind_some, List.find?_eq_none] at hrecord
    simpa using hrecord

namespace DispatchState

/-- The dispatch has no record yet. -/
def beginning (s : DispatchState) : Bool :=
  match s.phase with
  | .resolving | .lookingUp _ | .creating _ | .flushing _ => true
  | _ => false

/-- Later harnesses were started safely, and one may be while the next is resolved. -/
structure Quiet (s : DispatchState) : Prop where
  starts : ∀ start ∈ s.starts.tail, start.safe s.engineExecutionId = true
  resolving : s.phase = .resolvingNext → quiet s.engine s.engineExecutionId = true ∧
    s.lastResult.all (fun result => !result.toolCalls.any (·.unresolvedWrite)) = true
  first : s.beginning = true → s.starts = []

variable {request : UnifiedExecutionRequest} {s s' : DispatchState}

theorem Quiet.start_first (hempty : s.starts = []) (harnessId : String) :
    (s.start harnessId).Quiet where
  starts := by simp [start, hempty]
  resolving h := by simp [start] at h
  first h := by simp [start, beginning] at h

theorem Quiet.start_next (h : s.Quiet) (hphase : s.phase = .resolvingNext) (harnessId : String) :
    (s.start harnessId).Quiet where
  starts x hx := by
    have hmem : x ∈ s.starts.tail ∨ x = ⟨harnessId, s.engine, s.lastResult⟩ := by
      simp only [start] at hx
      cases hstarts : s.starts with
      | nil => simp [hstarts] at hx
      | cons first rest => simpa [hstarts] using hx
    rcases hmem with hold | rfl
    · exact h.starts x hold
    · obtain ⟨hengine, hresult⟩ := h.resolving hphase
      exact Bool.and_eq_true_iff.mpr ⟨hengine, hresult⟩
  resolving h := by simp [start] at h
  first h := by simp [start, beginning] at h

theorem Quiet.enter_first (hempty : s.starts = []) (harnessId : String) :
    (s.enter request harnessId).Quiet := by
  unfold enter
  split_ifs
  · exact start_first hempty harnessId
  · exact ⟨by simp [hempty], nofun, nofun⟩

theorem Quiet.enter_next (h : s.Quiet) (hphase : s.phase = .resolvingNext) (harnessId : String) :
    (s.enter request harnessId).Quiet := by
  unfold enter
  split_ifs
  · exact h.start_next hphase harnessId
  · exact ⟨h.starts, nofun, nofun⟩

theorem Quiet.settle (h : s.Quiet) {harnessId : String} {rawResult : UnifiedExecutionResult}
    {policy : Option RoutingPolicyConfig}
    (hsees : SeesSideEffects request s (.returned rawResult policy)) :
    (s.settle request harnessId rawResult policy).Quiet := by
  unfold DispatchState.settle
  dsimp only
  split_ifs with hfallback
  · split
    · exact ⟨h.starts, nofun, nofun⟩
    · rename_i hcheck
      obtain ⟨hid, hread, hnamed⟩ := hsees hfallback
      obtain ⟨hquiet, hreported⟩ := quiet_of_unblocked hcheck hread
      refine ⟨h.starts, fun _ => ⟨hid ▸ hquiet, ?_⟩, nofun⟩
      simp only [Option.all_some, Bool.not_eq_true', List.any_eq_false]
      intro call hcall hopen
      have hunknown := (Bool.and_eq_true_iff.mp hopen).1
      exact hreported call hcall ⟨hnamed call hcall hopen, hunknown⟩
  · exact ⟨h.starts, nofun, nofun⟩

theorem Quiet.step (h : s.Quiet) {e : DispatchEvent} (hsees : SeesSideEffects request s e)
    (htaken : s.step request e = some s') : s'.Quiet := by
  cases e with
  | others engine =>
    obtain rfl := Option.some.inj htaken
    exact ⟨h.starts, fun hphase => ⟨hsees hphase, (h.resolving hphase).2⟩, h.first⟩
  | resolved harnessId =>
    simp only [DispatchState.step] at htaken
    split at htaken
    · rename_i hphase
      obtain rfl := Option.some.inj htaken
      exact ⟨h.starts, nofun, fun _ => h.first (by simp [beginning, hphase])⟩
    · rename_i hphase
      obtain rfl := Option.some.inj htaken
      exact h.enter_next hphase harnessId
    · cases htaken
  | lookedUp =>
    simp only [DispatchState.step] at htaken
    split at htaken
    · rename_i hphase
      have hempty := h.first (by simp [beginning, hphase])
      split at htaken
      · obtain rfl := Option.some.inj htaken
        have hfound : ({ s with engineExecutionId := request.executionId } : DispatchState).starts =
          [] := hempty
        exact Quiet.enter_first hfound _
      · obtain rfl := Option.some.inj htaken
        exact ⟨h.starts, nofun, fun _ => hempty⟩
    · cases htaken
  | created executionId record =>
    simp only [DispatchState.step] at htaken
    split at htaken
    · rename_i hphase
      have hempty := h.first (by simp [beginning, hphase])
      split_ifs at htaken
      obtain rfl := Option.some.inj htaken
      refine ⟨?_, nofun, fun _ => hempty⟩
      simp [hempty]
    · cases htaken
  | flushed =>
    simp only [DispatchState.step] at htaken
    split at htaken
    · rename_i hphase
      obtain rfl := Option.some.inj htaken
      exact Quiet.enter_first (h.first (by simp [beginning, hphase])) _
    · cases htaken
  | returned rawResult policy =>
    simp only [DispatchState.step] at htaken
    split at htaken
    · obtain rfl := Option.some.inj htaken
      exact h.settle hsees
    · cases htaken
  | noCandidate =>
    simp only [DispatchState.step] at htaken
    split at htaken
    · obtain rfl := Option.some.inj htaken
      exact ⟨h.starts, nofun, nofun⟩
    · cases htaken

end DispatchState

/-- No other harness than the first is started while the record of the dispatch holds a write without
outcome, or the result before reports one, in a run whose checks see both. -/
theorem second_harness_safe {engine : Engine} {request : UnifiedExecutionRequest}
    {s : DispatchState}
    (h : Reached (DispatchState.step request) (SeesSideEffects request) (.called engine) s) :
    ∀ start ∈ s.starts.tail, start.safe s.engineExecutionId = true := by
  have hinit : (DispatchState.called engine).Quiet := ⟨List.forall_mem_nil _, nofun, fun _ => rfl⟩
  exact (h.invariant hinit fun _ _ _ hs hsees htaken => hs.step hsees htaken).starts

/-! A dispatch with a fallback. -/

def noEvidence : AcceptanceContract where
  requiredEvidence := []
  criteria := []

def createdExecution : ExecutionEngine where
  process := 1
  record := createdRecord 1 false noEvidence
  lease := none
  persistenceFailure := none
  pending := []
  landed := 1

/-- A harness has begun to write. -/
def writing : ExecutionEngine :=
  (createdExecution.dispatch id "write" "{}" "call-1" { callId := some "call-1" } 0).2

def writingExecution : ExecutionRecord := writing.record

/-- The write is confirmed. -/
def writtenExecution : ExecutionRecord :=
  (writing.pushResult
    { id := "call-1", callId := some "call-1", tool := "write", input := "{}", output := none
      error := none, ok := true, failureClass := none, policyEffect := .allow, policyRule := "default"
      durationMs := 5, time := 0, details := "{}" } "call-1" none 0).2.record

def Engine.holding (executionId : String) (record : ExecutionRecord) : Engine where
  records id := if id = executionId then some record else none
  persistenceFailure := none

def fallbackRequest : UnifiedExecutionRequest where
  executionId := "exec-request"
  allowFallback := true
  maxAttempts := none
  policyContext := .obj []

/-- A harness that broke off. -/
def brokenOff : UnifiedExecutionResult where
  harnessId := "first"
  status := .interrupted
  verified := false
  terminationReason := none
  errorKind := none
  failureClassification := none
  filesChanged := []
  toolCalls := []
  errors := []

/-- The same, with the write in its report. -/
def brokenOffAfterWrite : UnifiedExecutionResult :=
  { brokenOff with toolCalls := [⟨"call-1", "write", none, .obj [("state", .str "COMPLETED")]⟩] }

instance (request : UnifiedExecutionRequest) (s : DispatchState) :
    (e : DispatchEvent) → Decidable (SeesSideEffects request s e)
  | .returned _ _ => inferInstanceAs (Decidable (_ → _ ∧ _ ∧ ∀ call ∈ _, _ → _))
  | .others _ => inferInstanceAs (Decidable (_ → _))
  | .resolved _ | .lookedUp | .created _ _ | .flushed | .noCandidate => inferInstanceAs (Decidable True)

/-- The second harness follows the first, whose write was confirmed. -/
def foundRun : List DispatchEvent :=
  [.resolved "first", .lookedUp, .others (.holding "exec-request" writingExecution),
    .others (.holding "exec-request" writtenExecution), .returned brokenOffAfterWrite none,
    .resolved "second"]

theorem second_harness_safe_found : ∃ s,
    Reached (DispatchState.step fallbackRequest) (SeesSideEffects fallbackRequest)
      (.called (.holding "exec-request" createdExecution.record)) s ∧
    s.starts.map (·.harnessId) = ["first", "second"] ∧
    writtenExecution.toolCheckpoints.map (·.state) = [.completed] ∧
    ∀ start ∈ s.starts.tail, start.safe s.engineExecutionId = true := by
  have hrun : (Reached.run (DispatchState.step fallbackRequest)
      (.called (.holding "exec-request" createdExecution.record)) foundRun).any
        (fun s => s.starts.map (·.harnessId) = ["first", "second"]) = true := by decide +kernel
  obtain ⟨s, hs, hstarts⟩ := Option.any_eq_true _ _ |>.mp hrun
  have hreached : Reached (DispatchState.step fallbackRequest) (SeesSideEffects fallbackRequest)
      (.called (.holding "exec-request" createdExecution.record)) s :=
    Reached.of_run (fun s e => decide (SeesSideEffects fallbackRequest s e))
      (fun _ _ => of_decide_eq_true) foundRun (by decide +kernel) hs .init
  exact ⟨s, hreached, of_decide_eq_true hstarts, by decide +kernel, second_harness_safe hreached⟩

/-- The record is created under an id of the engine's own, and the harness writes there. -/
def createdRun : List DispatchEvent :=
  [.resolved "first", .lookedUp, .created "exec-engine" createdExecution.record, .flushed,
    .others (.holding "exec-engine" writingExecution), .returned brokenOff none, .resolved "second"]

theorem second_harness_over_write : ∃ s,
    Reached (DispatchState.step fallbackRequest) (fun _ _ => True)
      (.called ⟨fun _ => none, none⟩) s ∧
    ∃ start ∈ s.starts.tail, start.safe s.engineExecutionId = false := by
  have hrun : (Reached.run (DispatchState.step fallbackRequest) (.called ⟨fun _ => none, none⟩)
      createdRun).any (fun s => s.starts.tail.any fun start =>
        !start.safe s.engineExecutionId) = true := by decide
  obtain ⟨s, hs, hstarts⟩ := Option.any_eq_true _ _ |>.mp hrun
  refine ⟨s, Reached.of_run (fun _ _ => true) (fun _ _ _ => trivial) createdRun (by decide)
    hs .init, ?_⟩
  obtain ⟨start, hstart, hunsafe⟩ := List.any_eq_true.mp hstarts
  exact ⟨start, hstart, by simpa using hunsafe⟩

end Wazir.Harness
