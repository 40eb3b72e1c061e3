import Wazir.Core.EngineSteps

/-! Tool calls have one confirmed outcome and writes do not overlap. `recordToolCall` appends its
result without a look at what became of the call in the meantime: a result that comes after a
reconciliation, or a second one, overrides what was confirmed. Where no result comes so, an outcome
once confirmed stays, at most one write is open, and no call id is dispatched twice. -/

namespace Wazir.Core

open Relation Wazir.Async

/-- The call ids that the log has a dispatch of. -/
def dispatchedId (e : ExecutionEvent) : Option String :=
  match e.type, e.data with
  | .toolStarted, .dispatch call => some (e.identity.callId.getD call.callId)
  | _, _ => none

def dispatchedIds (log : List ExecutionEvent) : List String := log.filterMap dispatchedId

/-- What the log says of the tool calls. -/
structure OneOutcome (log : List ExecutionEvent) : Prop where
  overlap : ∀ c ∈ toolCheckpoints log, ∀ c' ∈ toolCheckpoints log, c.unresolvedWrite = true →
    c'.unresolvedWrite = true → c = c'
  dispatched : (dispatchedIds log).Nodup
  final : ∀ early, early <+: log → ∀ c ∈ toolCheckpoints early, c.state.unresolved = false →
    ∃ c' ∈ toolCheckpoints log, c'.callId = c.callId ∧ c'.state = c.state

section Log

variable {log : List ExecutionEvent} {event : ExecutionEvent}

theorem dispatchedIds_append :
    dispatchedIds (log ++ [event]) = dispatchedIds log ++ (dispatchedId event).toList := by
  rw [dispatchedIds, List.filterMap_append]
  cases h : dispatchedId event <;> simp [dispatchedIds, h]

theorem dispatchedId_other (h : event.type ≠ .toolStarted) : dispatchedId event = none := by
  unfold dispatchedId
  split
  · rename_i heq _
    exact absurd heq h
  · rfl

theorem ids_applyResult {calls : List ToolCallCheckpoint} {r : ToolResultData} {id : String}
    (hnodup : (calls.map (·.callId)).Nodup) : (∃ c ∈ applyResult calls event r, c.callId = id) ↔
    ∃ c ∈ calls, c.callId = id := by
  constructor
  · rintro ⟨c, hc, rfl⟩
    rcases mem_applyResult hc with hold | ⟨call, hcall, rfl⟩
    · exact ⟨c, hold, rfl⟩
    · exact ⟨call, mem_of_resolvedCall hcall, rfl⟩
  · rintro ⟨c, hc, rfl⟩
    rcases applyResult_mem hc hnodup with hsame | ⟨-, hsettled⟩
    · exact ⟨c, hsame, rfl⟩
    · exact ⟨_, hsettled, rfl⟩

/-- The dispatched calls are those that the fold knows. -/
theorem mem_dispatchedIds {id : String} :
    id ∈ dispatchedIds log ↔ ∃ c ∈ toolCheckpoints log, c.callId = id := by
  induction log using List.reverseRecOn with
  | nil => simp [dispatchedIds]
  | append_singleton log event ih =>
    have hresult : ∀ r, event.type ≠ .toolStarted →
        (id ∈ dispatchedIds log ++ (dispatchedId event).toList ↔
          ∃ c ∈ applyResult (toolCheckpoints log) event r, c.callId = id) := by
      intro r htype
      rw [dispatchedId_other htype, ids_applyResult (toolCheckpoints_nodup log), ← ih]
      simp
    rw [dispatchedIds_append, toolCheckpoints_append]
    unfold applyEvent
    split
    · rename_i call htype hdata
      simp only [dispatchedId, htype, hdata, List.mem_append, Option.mem_toList,
        Option.some.injEq, ih, mem_setCall]
      constructor
      · rintro (⟨c, hc, rfl⟩ | rfl)
        · by_cases heq : c.callId = event.identity.callId.getD call.callId
          · exact ⟨_, .inl rfl, heq.symm⟩
          · exact ⟨c, .inr ⟨hc, heq⟩, rfl⟩
        · exact ⟨_, .inl rfl, rfl⟩
      · rintro ⟨c, rfl | ⟨hc, -⟩, rfl⟩
        · exact .inr rfl
        · exact .inl ⟨c, hc, rfl⟩
    · rename_i r htype _
      exact hresult r (by rw [htype]; exact ExecutionEventType.noConfusion)
    · rename_i r htype _
      exact hresult r (by rw [htype]; exact ExecutionEventType.noConfusion)
    · rename_i hother _ _
      have hnone : dispatchedId event = none := by
        unfold dispatchedId
        split
        · rename_i call htype hdata
          exact absurd hdata (hother call htype)
        · rfl
      rw [hnone, ← ih]
      simp

/-! One event more. -/

/-- The calls settled before are settled the same way after the event. -/
def KeepsFinal (calls calls' : List ToolCallCheckpoint) : Prop :=
  ∀ c ∈ calls, c.state.unresolved = false → ∃ c' ∈ calls', c'.callId = c.callId ∧
    c'.state = c.state

theorem OneOutcome.append (h : OneOutcome log)
    (overlap : ∀ c ∈ toolCheckpoints (log ++ [event]), ∀ c' ∈ toolCheckpoints (log ++ [event]),
      c.unresolvedWrite = true → c'.unresolvedWrite = true → c = c')
    (dispatched : (dispatchedIds (log ++ [event])).Nodup)
    (keeps : KeepsFinal (toolCheckpoints log) (toolCheckpoints (log ++ [event]))) :
    OneOutcome (log ++ [event]) := by
  refine ⟨overlap, dispatched, fun early hearly c hc hstate => ?_⟩
  rcases List.prefix_concat_iff.mp hearly with rfl | hbefore
  · exact ⟨c, hc, rfl, rfl⟩
  · obtain ⟨c₁, hc₁, hid₁, hstate₁⟩ := h.final early hbefore c hc hstate
    obtain ⟨c₂, hc₂, hid₂, hstate₂⟩ := keeps c₁ hc₁ (hstate₁ ▸ hstate)
    exact ⟨c₂, hc₂, hid₂.trans hid₁, hstate₂.trans hstate₁⟩

theorem OneOutcome.other (h : OneOutcome log) (hstarted : event.type ≠ .toolStarted)
    (hcompleted : event.type ≠ .toolCompleted) (hunknown : event.type ≠ .toolUnknownOutcome) :
    OneOutcome (log ++ [event]) := by
  have hcalls : toolCheckpoints (log ++ [event]) = toolCheckpoints log := by
    rw [toolCheckpoints_append, applyEvent_other hstarted hcompleted hunknown]
  refine h.append (hcalls ▸ h.overlap) ?_ (hcalls ▸ fun c hc _ => ⟨c, hc, rfl, rfl⟩)
  rw [dispatchedIds_append, dispatchedId_other hstarted]
  simpa using h.dispatched

theorem OneOutcome.others (h : OneOutcome log) {new : List ExecutionEvent}
    (hnew : ∀ e ∈ new, e.type.quiet = true ∨ e.type = .revisionChanged) :
    OneOutcome (log ++ new) := by
  induction new using List.reverseRecOn with
  | nil => rwa [List.append_nil]
  | append_singleton new e ih =>
    have hold := ih fun e' he' => hnew e' (List.mem_append_left _ he')
    have htype := hnew e (by simp)
    rw [← List.append_assoc]
    refine hold.other ?_ ?_ ?_
    all_goals
      intro heq
      rw [heq] at htype
      rcases htype with htype | htype <;> cases htype

/-- A new call of which nothing is known. -/
theorem OneOutcome.started (h : OneOutcome log) {call : ToolCallCheckpoint}
    (htype : event.type = .toolStarted) (hdata : event.data = .dispatch call)
    (hnamed : event.identity.callId = some call.callId)
    (hfresh : ∀ c ∈ toolCheckpoints log, c.callId ≠ call.callId)
    (halone : call.sideEffectClass ≠ .readOnly → ∀ c ∈ toolCheckpoints log,
      c.unresolvedWrite = false) : OneOutcome (log ++ [event]) := by
  have hid : dispatchedId event = some call.callId := by
    simp [dispatchedId, htype, hdata, hnamed]
  have hcalls : ∀ c, c ∈ toolCheckpoints (log ++ [event]) →
      c ∈ toolCheckpoints log ∨ c.sideEffectClass = call.sideEffectClass ∧ c.callId = call.callId := by
    intro c hc
    rw [toolCheckpoints_append] at hc
    simp only [applyEvent, htype, hdata, hnamed, Option.getD_some] at hc
    rcases mem_setCall.mp hc with rfl | ⟨hold, -⟩
    · exact .inr ⟨rfl, rfl⟩
    · exact .inl hold
  have hkept : ∀ c ∈ toolCheckpoints log, c ∈ toolCheckpoints (log ++ [event]) := by
    intro c hc
    rw [toolCheckpoints_append]
    simp only [applyEvent, htype, hdata, hnamed, Option.getD_some]
    exact mem_setCall.mpr (.inr ⟨hc, hfresh c hc⟩)
  have hwrite : ∀ c : ToolCallCheckpoint, c.unresolvedWrite = true →
      c.sideEffectClass ≠ .readOnly := by
    intro c hc
    simp only [ToolCallCheckpoint.unresolvedWrite, Bool.and_eq_true, decide_eq_true_eq] at hc
    exact hc.1
  refine h.append (fun c hc c' hc' hw hw' => ?_) ?_ fun c hc _ => ⟨c, hkept c hc, rfl, rfl⟩
  · rcases hcalls c hc with hold | ⟨hclass, hcid⟩
    · rcases hcalls c' hc' with hold' | ⟨hclass', -⟩
      · exact h.overlap c hold c' hold' hw hw'
      · exact absurd (halone (hclass' ▸ hwrite c' hw') c hold) (by simp [hw])
    · rcases hcalls c' hc' with hold' | ⟨-, hcid'⟩
      · exact absurd (halone (hclass ▸ hwrite c hw) c' hold') (by simp [hw'])
      · exact toolCheckpoint_unique hc hc' (hcid.trans hcid'.symm)
  · rw [dispatchedIds_append, hid, Option.toList_some, List.nodup_append_comm]
    refine List.nodup_cons.mpr ⟨fun hmem => ?_, h.dispatched⟩
    obtain ⟨c, hc, heq⟩ := mem_dispatchedIds.mp hmem
    exact hfresh c hc heq

/-- A result that contradicts nothing confirmed. -/
theorem OneOutcome.settled (h : OneOutcome log) {d : ToolResultData}
    (htype : event.type = .toolCompleted ∨ event.type = .toolUnknownOutcome)
    (hdata : event.data = .result d)
    (hagrees : ∀ c, resolvedCall (toolCheckpoints log) event d = some c →
      c.state.unresolved = true ∨ c.state = resultState event.type d) :
    OneOutcome (log ++ [event]) := by
  have hcalls : toolCheckpoints (log ++ [event]) = applyResult (toolCheckpoints log) event d := by
    rw [toolCheckpoints_append]
    rcases htype with htype | htype <;> simp [applyEvent, htype, hdata]
  have hnodup := toolCheckpoints_nodup log
  -- a call that is unresolved after the result was so before it
  have hback : ∀ c ∈ toolCheckpoints (log ++ [event]), c.unresolvedWrite = true →
      ∃ c₀ ∈ toolCheckpoints log, c₀.callId = c.callId ∧ c₀.unresolvedWrite = true := by
    intro c hc hw
    rw [hcalls] at hc
    rcases mem_applyResult hc with hold | ⟨call, hcall, rfl⟩
    · exact ⟨c, hold, rfl, hw⟩
    · refine ⟨call, mem_of_resolvedCall hcall, rfl, ?_⟩
      simp only [ToolCallCheckpoint.unresolvedWrite, settleCall_sideEffectClass, settleCall_state,
        Bool.and_eq_true] at hw ⊢
      refine ⟨hw.1, ?_⟩
      rcases hagrees call hcall with hopen | hsame
      · exact hopen
      · rw [hsame]
        exact hw.2
  refine h.append (fun c hc c' hc' hw hw' => ?_) ?_ fun c hc hstate => ?_
  · obtain ⟨c₀, hc₀, hid, hw₀⟩ := hback c hc hw
    obtain ⟨c₁, hc₁, hid', hw₁⟩ := hback c' hc' hw'
    have heq := h.overlap c₀ hc₀ c₁ hc₁ hw₀ hw₁
    exact toolCheckpoint_unique hc hc' (by rw [← hid, ← hid', heq])
  · rw [dispatchedIds_append, dispatchedId_other]
    · simpa using h.dispatched
    · rcases htype with htype | htype <;> rw [htype] <;> exact ExecutionEventType.noConfusion
  · rw [hcalls]
    rcases applyResult_mem hc hnodup with hsame | ⟨hcall, hsettled⟩
    · exact ⟨c, hsame, rfl, rfl⟩
    · rcases hagrees c hcall with hopen | hsame
      · rw [hstate] at hopen
        cases hopen
      · exact ⟨_, hsettled, rfl, hsame.symm⟩

end Log

/-! The steps of a record. -/

/-- Results are of open calls, or say what was confirmed. -/
def singleOutcome : StepRules where
  result r e := ∀ d, e.data = .result d → ∀ c, resolvedCall r.toolCheckpoints e d = some c →
    c.state.unresolved = true ∨ c.state = resultState e.type d
  bound _ _ := True

theorem OneOutcome.step {r r' : ExecutionRecord} (h : OneOutcome r.events)
    (hs : RecordStep singleOutcome r r') : OneOutcome r'.events := by
  cases hs with
  | framed _ events => rwa [events]
  | quiet now type data identity hquiet =>
    refine h.other ?_ ?_ ?_
    all_goals
      intro heq
      rw [show type = _ from heq] at hquiet
      cases hquiet
  | started now call identity named fresh alone => exact h.started rfl rfl named fresh alone
  | settled now type d identity result named allowed => exact h.settled result rfl (allowed d rfl)
  | advanced _ new events _ told =>
    rw [events]
    exact h.others fun e he => (told e he).2
  | evidence => exact h
  | cleared => exact h
  | evaluated => exact h

/-- A result event of a call that is open. -/
theorem singleOutcome_open {r : ExecutionRecord} {callId : String} (hopen : r.Open callId)
    {e : ExecutionEvent} (hnamed : e.identity.callId = some callId) : singleOutcome.result r e := by
  intro d _ c hc
  rcases resolvedCall_eq_some hc with hid | hstarted
  · rw [hnamed, Option.getD_some] at hid
    exact .inl (hopen c (mem_of_resolvedCall hc) hid)
  · exact .inl (by rw [hstarted]; rfl)

/-- A result comes while its call is open, or says of it what was confirmed already. -/
def consistent (e : EngineEntry) : Bool :=
  match e.op, e.before.engine with
  | .block (.pushResult call callId _), some m => m.record.toolCheckpoints.all fun c =>
    c.callId ≠ callId || c.state.unresolved ||
      c.state = resultState .toolCompleted (call.resultData callId)
  | _, _ => true

theorem singleOutcome_allow {e : EngineEntry} {m : ExecutionEngine} {b : EngineBlock}
    (h : consistent e = true) (hup : e.before.engine = some m) (hop : e.op = .block b) :
    singleOutcome.Allow m e.input.now b := by
  refine ⟨fun r call hopen identity hnamed => singleOutcome_open hopen hnamed,
    fun call hcall hopen proof identity hnamed => singleOutcome_open hopen hnamed, ?_,
    fun _ _ _ _ => trivial⟩
  rintro call callId stepId rfl d hd c hc
  cases hd
  rcases resolvedCall_eq_some hc with hid | hstarted
  · have hall : m.record.toolCheckpoints.all (fun c => c.callId ≠ callId || c.state.unresolved ||
        c.state = resultState .toolCompleted (call.resultData callId)) = true := by
      simpa only [consistent, hop, hup] using h
    have := List.all_eq_true.mp hall c (mem_of_resolvedCall hc)
    have hsame : c.callId = callId := hid
    simpa [hsame, resultEvent, ExecutionRecord.newEvent] using this
  · exact .inl (by rw [hstarted]; rfl)

end Wazir.Core
