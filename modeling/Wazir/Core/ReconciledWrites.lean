import Wazir.Core.BackedCompletion

/-! Verification and reconciled writes. A reconciliation confirms a write without moving the workspace
revision: that is done by `recordFilesChanged`, which one of the recovery paths calls. Evidence bound
to no later revision than the current one is out of date once it has moved, so a completion that finds
the revision moved since each confirmed write rests on nothing recorded before. -/

namespace Wazir.Core

open Wazir.Async

/-- What the log, the evidence and the evaluation say of the revisions they were recorded at. -/
structure Stamped (r : ExecutionRecord) : Prop where
  events : ∀ e ∈ r.events, e.workspaceRevision ≤ r.revision
  order : r.events.Pairwise fun e e' => e.workspaceRevision ≤ e'.workspaceRevision
  moved : r.events.Pairwise fun e e' => e.type = .toolCompleted → e'.type = .revisionChanged →
    e.workspaceRevision < e'.workspaceRevision
  started : ∀ e ∈ r.events, ∀ call, e.type = .toolStarted → e.data = .dispatch call →
    call.workspaceRevision = e.workspaceRevision
  evidence : ∀ v ∈ r.evidence, v.workspaceRevision ≤ r.revision ∧
    ∀ e ∈ r.events.drop v.recordedAt, v.workspaceRevision ≤ e.workspaceRevision
  evaluation : ∀ v n, r.evaluation = some v → v.workspaceRevision = some n → n ≤ r.revision ∧
    ∀ e ∈ r.events.drop v.recordedAt, n ≤ e.workspaceRevision

/-- Evidence and evaluations are bound to no revision that is yet to come. -/
def pastBound : StepRules := ⟨fun _ _ => True, fun r n => n ≤ r.revision⟩

namespace Stamped

variable {r r' : ExecutionRecord}

/-- New events at the new revision. A revision that tells of a change is a later one. -/
theorem append (h : Stamped r) (new : List ExecutionEvent) (hevents : r'.events = r.events ++ new)
    (hrevision : r.revision ≤ r'.revision) (hstamp : ∀ e ∈ new, e.workspaceRevision = r'.revision)
    (hmoved : (∀ e ∈ new, e.type ≠ .revisionChanged) ∨
      r.revision < r'.revision ∧ ∀ e ∈ new, e.type ≠ .toolCompleted)
    (hstarted : ∀ e ∈ new, ∀ call, e.type = .toolStarted → e.data = .dispatch call →
      call.workspaceRevision = e.workspaceRevision)
    (hevidence : r'.evidence = r.evidence) (hevaluation : r'.evaluation = r.evaluation) :
    Stamped r' := by
  have hlater : ∀ n ≤ r.revision, ∀ k, (∀ e ∈ r.events.drop k, n ≤ e.workspaceRevision) →
      n ≤ r'.revision ∧ ∀ e ∈ r'.events.drop k, n ≤ e.workspaceRevision := by
    intro n hn k hold
    refine ⟨hn.trans hrevision, fun e he => ?_⟩
    rw [hevents, List.drop_append] at he
    rcases List.mem_append.mp he with he | he
    · exact hold e he
    · rw [hstamp e (List.mem_of_mem_drop he)]
      exact hn.trans hrevision
  refine ⟨fun e he => ?_, ?_, ?_, fun e he call htype hdata => ?_, fun v hv => ?_,
    fun v n hv hn => ?_⟩
  · rcases List.mem_append.mp (hevents ▸ he) with he | he
    · exact (h.events e he).trans hrevision
    · exact (hstamp e he).le
  · rw [hevents]
    refine List.pairwise_append.mpr ⟨h.order, ?_, fun e he e' he' => ?_⟩
    · exact List.pairwise_of_forall_mem_list fun e he e' he' => by rw [hstamp e he, hstamp e' he']
    · rw [hstamp e' he']
      exact (h.events e he).trans hrevision
  · rw [hevents]
    refine List.pairwise_append.mpr ⟨h.moved, ?_, fun e he e' he' hcompleted hchanged => ?_⟩
    · refine List.pairwise_of_forall_mem_list fun e he e' he' hcompleted hchanged => ?_
      rcases hmoved with hnone | ⟨-, hnone⟩
      · exact absurd hchanged (hnone e' he')
      · exact absurd hcompleted (hnone e he)
    · rcases hmoved with hnone | ⟨hlt, -⟩
      · exact absurd hchanged (hnone e' he')
      · rw [hstamp e' he']
        exact (h.events e he).trans_lt hlt
  · rcases List.mem_append.mp (hevents ▸ he) with he | he
    · exact h.started e he call htype hdata
    · exact hstarted e he call htype hdata
  · obtain ⟨hbound, hold⟩ := h.evidence v (hevidence ▸ hv)
    exact hlater _ hbound _ hold
  · obtain ⟨hbound, hold⟩ := h.evaluation v n (hevaluation ▸ hv) hn
    exact hlater _ hbound _ hold

theorem push (h : Stamped r) (now : ℤ) (type : ExecutionEventType) (data : ExecutionEventData)
    (identity : ExecutionEventIdentity) (hchanged : type ≠ .revisionChanged)
    (hstarted : ∀ call, type = .toolStarted → data = .dispatch call →
      call.workspaceRevision = r.revision) : Stamped (r.push now type data identity) := by
  refine h.append [r.newEvent now type data identity] rfl le_rfl ?_ (.inl ?_) ?_ rfl rfl
  all_goals
    intro e he
    rw [List.mem_singleton.mp he]
  · rfl
  · exact hchanged
  · exact hstarted

theorem step (h : Stamped r) (hs : RecordStep pastBound r r') : Stamped r' := by
  cases hs with
  | framed _ events revision evidence evaluation =>
    refine h.append [] (by rw [events, List.append_nil]) revision.ge ?_ (.inl ?_) ?_ evidence
      evaluation
    all_goals exact List.forall_mem_nil _
  | quiet now type data identity hquiet =>
    refine h.push now type data identity ?_ fun call htype => ?_
    · rintro rfl
      cases hquiet
    · rw [htype] at hquiet
      cases hquiet
  | started now call identity _ _ _ revision =>
    refine h.push now _ _ identity (by rintro ⟨⟩) fun call' _ hdata => ?_
    cases hdata
    exact revision
  | settled now type d identity result =>
    refine h.push now _ _ identity ?_ fun call _ hdata => by cases hdata
    rintro rfl
    rcases result with h | h <;> cases h
  | advanced _ new events revision told evidence evaluation =>
    refine h.append new events (by omega) (fun e he => (told e he).1.trans revision.symm)
      (.inr ⟨by omega, fun e he htype => ?_⟩) (fun e he call htype => ?_) evidence evaluation
    all_goals
      have hkind := (told e he).2
      rw [htype] at hkind
      rcases hkind with h | h <;> cases h
  | evidence e bound recorded =>
    refine ⟨h.events, h.order, h.moved, h.started, fun v hv => ?_, h.evaluation⟩
    rcases List.mem_append.mp hv with hv | hv
    · exact h.evidence v hv
    · rw [List.mem_singleton.mp hv, recorded]
      exact ⟨bound, by simp⟩
  | cleared => exact ⟨h.events, h.order, h.moved, h.started, List.forall_mem_nil _, h.evaluation⟩
  | evaluated e bound recorded =>
    refine ⟨h.events, h.order, h.moved, h.started, h.evidence, fun v n hv hn => ?_⟩
    cases hv
    rw [recorded]
    exact ⟨bound n hn, by simp⟩

end Stamped

/-! Reconciled writes. -/

/-- The event `k` confirms the write that the event `s` dispatched. -/
structure AppliedWrite (log : List ExecutionEvent) (s k : ℕ) (call : ToolCallCheckpoint) : Prop where
  later : s < k
  started : ∃ e, log[s]? = some e ∧ e.type = .toolStarted ∧ e.data = .dispatch call
  writes : call.sideEffectClass ≠ .readOnly
  confirmed : ∃ e d proof, log[k]? = some e ∧ e.type = .toolCompleted ∧ e.data = .result d ∧
    d.callId = call.callId ∧ d.reconciled = some proof ∧ proof.outcome = .applied

/-- The revision has moved since the event `k`. -/
def MovedSince (log : List ExecutionEvent) (k : ℕ) : Prop :=
  ∃ e ∈ log.drop (k + 1), e.type = .revisionChanged

/-- What a completion of the record rests on was recorded after the event `k`. -/
structure VerifiedSince (r : ExecutionRecord) (k : ℕ) : Prop where
  evidence : ∀ v ∈ r.evidence, v.workspaceRevision = r.revision → k < v.recordedAt
  evaluation : ∀ v, r.evaluation = some v → k < v.recordedAt

theorem Stamped.verifiedSince {r : ExecutionRecord} (h : Stamped r) (heligible : Eligible r.facts)
    {s k : ℕ} {call : ToolCallCheckpoint} (hwrite : AppliedWrite r.events s k call)
    (hmoved : MovedSince r.events k) :
    call.workspaceRevision < r.revision ∧ VerifiedSince r k := by
  obtain ⟨first, hfirst, hstarted, hdispatch⟩ := hwrite.started
  obtain ⟨second, d, proof, hsecond, hcompleted, -⟩ := hwrite.confirmed
  obtain ⟨third, hthird, hchanged⟩ := hmoved
  have hk := (List.getElem?_eq_some_iff.mp hsecond).1
  have hsplit : r.events = r.events.take k ++ second :: r.events.drop (k + 1) := by
    rw [← (List.getElem?_eq_some_iff.mp hsecond).2, ← List.drop_eq_getElem_cons hk,
      List.take_append_drop]
  have horder := h.order
  have hadvance := h.moved
  rw [hsplit, List.pairwise_append] at horder hadvance
  have hlt : second.workspaceRevision < r.revision :=
    ((List.pairwise_cons.mp hadvance.2.1).1 third hthird hcompleted hchanged).trans_le
      (h.events third (List.mem_of_mem_drop hthird))
  have hbefore : first ∈ r.events.take k := by
    refine List.mem_of_getElem? (i := s) ?_
    rw [List.getElem?_take_of_lt hwrite.later]
    exact hfirst
  have hsince : ∀ n recordedAt, n = r.revision →
      (∀ e ∈ r.events.drop recordedAt, n ≤ e.workspaceRevision) → k < recordedAt := by
    intro n recordedAt hn hall
    by_contra hle
    have hmem : second ∈ r.events.drop recordedAt := by
      refine List.mem_of_getElem? (i := k - recordedAt) ?_
      rw [List.getElem?_drop, Nat.add_sub_cancel' (not_lt.mp hle)]
      exact hsecond
    exact absurd (hall second hmem) (not_le.mpr (hn ▸ hlt))
  refine ⟨?_, fun v hv hcurrent => hsince _ _ hcurrent (h.evidence v hv).2, fun v hv => ?_⟩
  · rw [h.started first (List.mem_of_getElem? hfirst) call hstarted hdispatch]
    exact (horder.2.2 first hbefore second List.mem_cons_self).trans_lt hlt
  · have hcurrent := (heligible.evaluation v hv).2
    exact hsince _ _ rfl (h.evaluation v _ hv hcurrent).2

/-! Runs. -/

/-- A block binds evidence and evaluations to no revision that is yet to come. -/
def boundNow (e : EngineEntry) : Prop :=
  ∀ b m n, e.op = .block b → e.before.engine = some m → b.Binds m n → n ≤ m.record.revision

/-- At a completion the revision has moved since each confirmed write. -/
def movedNow (e : EngineEntry) : Prop :=
  ∀ check m s k call, e.op = .block (.complete check) → e.before.engine = some m →
    AppliedWrite m.record.events s k call → MovedSince m.record.events k

/-- A completion rests on nothing that was recorded before a confirmed write, and the revision has
moved past that of its dispatch. -/
def NotOutlived (e : EngineEntry) : Prop :=
  ∀ check m s k call, e.op = .block (.complete check) → e.before.engine = some m →
    m.record.status ≠ .completed → AppliedWrite m.record.events s k call →
    call.workspaceRevision < m.record.revision ∧ VerifiedSince m.record k

theorem stamped_created (process : ℕ) (inJob : Bool) (acceptance : AcceptanceContract) :
    Stamped (createdRecord process inJob acceptance) := by
  have hempty : Stamped
      { status := .queued, owner := some process, inJob := inJob, acceptance := acceptance
        revision := 0, events := [], toolCalls := [], filesChanged := [], evidence := []
        evaluation := none } :=
    ⟨List.forall_mem_nil _, .nil, .nil, List.forall_mem_nil _, List.forall_mem_nil _,
      by rintro v n ⟨⟩⟩
  exact hempty.push 0 .created _ _ (by rintro ⟨⟩) fun call htype => by cases htype

theorem stamped_reached {host : EngineHost} {process : ℕ} {inJob : Bool}
    {acceptance : AcceptanceContract} {cfg : EngineConfig}
    (hr : Reach (engineSystem host) (createdWorld process inJob acceptance) cfg)
    (hok : cfg.hist.Always fun _ e => boundNow e) : cfg.hist.shared.Everywhere Stamped := by
  have hcreated := stamped_created process inJob acceptance
  have hstep : ∀ r r', Stamped r → RecordStep pastBound r r' → Stamped r' := fun r r' h hs =>
    h.step hs
  refine everywhere_reached hstep (fun e m b hcond hup hop _ => ?_)
    ⟨hcreated, fun m hm => ?_, fun m hm => ?_⟩ hr hok
  · exact ⟨fun _ _ _ _ _ => trivial, fun _ _ _ _ _ _ => trivial, fun _ _ _ _ => trivial,
      fun r n hrevision hbinds => (hcond b m n hop hup hbinds).trans hrevision.ge⟩
  · cases hm
    exact hcreated
  · cases hm
    exact List.forall_mem_nil _

/-- In a run that binds no evidence ahead, a completion that nothing came between and that finds the
revision moved since each confirmed write rests on verification after them all. -/
theorem completion_notOutlived (host : EngineHost) (process : ℕ) (inJob : Bool)
    (acceptance : AcceptanceContract) {cfg : EngineConfig}
    (hr : Reach (engineSystem host) (createdWorld process inJob acceptance) cfg)
    (hok : cfg.hist.Always fun _ e => boundNow e ∧ undisturbed e = true ∧ movedNow e) :
    cfg.hist.Always fun _ e => NotOutlived e := by
  intro pre e post he check m s k call hop hup hstatus hwrite
  obtain ⟨cfg₁, hr₁, hhist, -⟩ := hr.ran he
  have hbound : cfg₁.hist.Always fun _ e => boundNow e := by
    rw [hhist]
    exact Hist.Always.upTo (fun pre e post he => (hok pre e post he).1) he
  have hstamped : Stamped m.record := (stamped_reached hr₁ hbound).memory m (by rw [hhist]; exact hup)
  obtain ⟨-, hundisturbed, hmoved⟩ := hok pre e post he
  have heligible : Eligible m.record.facts := by
    simp only [undisturbed, hop, hup, decide_eq_true_eq] at hundisturbed
    exact (backed_of_undisturbed hundisturbed hstatus).eligible
  exact hstamped.verifiedSince heligible hwrite (hmoved check m s k call hop hup hwrite)

/-! One run that meets the conditions, and one that does not. -/

def boundCheck (e : EngineEntry) : Bool :=
  match e.op, e.before.engine with
  | .block (.recordEvidence _ bound), some m => bound ≤ m.record.revision
  | .block (.recordCheck check _), some m =>
    check.workspaceRevision.getD m.record.revision ≤ m.record.revision
  | .block (.setEvaluation evaluation _), some m =>
    evaluation.workspaceRevision.all (· ≤ m.record.revision)
  | _, _ => true

theorem boundNow_of_check {e : EngineEntry} (h : boundCheck e = true) : boundNow e := by
  intro b m n hop hup hbinds
  cases b with
  | recordEvidence evidence bound =>
    simp only [boundCheck, hop, hup, decide_eq_true_eq] at h
    exact (show n = bound from hbinds) ▸ h
  | recordCheck check claimant =>
    simp only [boundCheck, hop, hup, decide_eq_true_eq] at h
    exact (show n = _ from hbinds) ▸ h
  | setEvaluation evaluation claimant =>
    have hn : evaluation.workspaceRevision = some n := hbinds
    simpa [boundCheck, hop, hup, hn] using h
  | _ => exact absurd hbinds id

/-- The revision has moved since the last call that was completed. -/
def movedCheck (e : EngineEntry) : Bool :=
  match e.op, e.before.engine with
  | .block (.complete _), some m => (List.range m.record.events.length).all fun k =>
    m.record.events[k]?.any (·.type ≠ .toolCompleted) ||
      (m.record.events.drop (k + 1)).any (·.type = .revisionChanged)
  | _, _ => true

theorem movedNow_of_check {e : EngineEntry} (h : movedCheck e = true) : movedNow e := by
  intro check m s k call hop hup hwrite
  obtain ⟨ev, -, -, hk, hcompleted, -⟩ := hwrite.confirmed
  simp only [movedCheck, hop, hup, List.all_eq_true, List.mem_range] at h
  simpa [hk, hcompleted, MovedSince] using h k (List.getElem?_eq_some_iff.mp hk).1

/-- Tests that pass at the current revision. -/
def testsPass (i : ℕ) : List EngineAction :=
  engineCall i (.recordEvidence ⟨.test, none, none, none, 0, none, {}⟩ {}) 3

/-- The tests pass, a write is dispatched, and the process ends. The next one finds the write applied
and completes the execution on the same tests. -/
def reconciledRun : List EngineAction :=
  testsPass 0 ++
    engineCall 1 (.recordToolStart "write_file" "{}" { callId := some "call-1" }) 3 ++
    engineCall 2 .write 1 ++ engineCall 3 .write 1 ++
    [.crash 0, .begin ⟨1, .startup false⟩, .run 4 {}, .run 4 { owner := .dead },
      .begin ⟨1, .reconcileLocalOutcomes true⟩, .run 5 { owner := .dead },
      .run 5 { inspection := .ok ⟨.applied, "the file is there"⟩ }, .run 5 {},
      .begin ⟨1, .setStatus .completed {}⟩, .run 6 {}, .run 6 {}, .run 6 {}]

def confirms (log : List ExecutionEvent) (s k : ℕ) : Bool :=
  match log[s]?, log[k]? with
  | some ⟨_, .toolStarted, _, _, _, .dispatch call⟩, some ⟨_, .toolCompleted, _, _, _, .result d⟩ =>
    call.sideEffectClass ≠ .readOnly && d.callId = call.callId &&
      d.reconciled.any (·.outcome = .applied)
  | _, _ => false

theorem appliedWrite_of_check {log : List ExecutionEvent} {s k : ℕ} (hlater : s < k)
    (h : confirms log s k = true) : ∃ call, AppliedWrite log s k call := by
  unfold confirms at h
  split at h
  · rename_i _ _ _ _ call _ _ _ _ d hs hk
    simp only [Bool.and_eq_true, decide_eq_true_eq] at h
    obtain ⟨⟨hwrites, hcall⟩, happlied⟩ := h
    obtain ⟨proof, hreconciled, houtcome⟩ := (Option.any_eq_true _ _).mp happlied
    exact ⟨call, hlater, ⟨_, hs, rfl, rfl⟩, hwrites, _, d, proof, hk, rfl, rfl, hcall, hreconciled,
      of_decide_eq_true houtcome⟩
  · cases h

/-- A completion on evidence from before the write that event 6 confirms. -/
def outlived (e : EngineEntry) : Bool :=
  match e.op, e.before.engine with
  | .block (.complete _), some m => m.record.status ≠ .completed && confirms m.record.events 2 6 &&
    m.record.evidence.any fun v => v.workspaceRevision = m.record.revision && v.recordedAt ≤ 6
  | _, _ => false

theorem reconciled_outlived : ∃ cfg : EngineConfig,
    Reach (engineSystem plainEngineHost) (createdWorld 0 false ⟨[], [.test]⟩) cfg ∧
      ¬cfg.hist.Always fun _ e => NotOutlived e := by
  have hrun : (schedule (engineSystem plainEngineHost) reconciledRun
      (.start (createdWorld 0 false ⟨[], [.test]⟩))).any (fun cfg =>
        cfg.hist.entries.any outlived) = true := by
    decide +kernel
  obtain ⟨cfg, hr, hcheck⟩ := Reach.of_check hrun
  refine ⟨cfg, hr, fun hall => ?_⟩
  obtain ⟨e, he, hout⟩ := List.any_eq_true.mp hcheck
  obtain ⟨pre, post, hsplit⟩ := Hist.mem_entries he
  unfold outlived at hout
  split at hout
  · rename_i check m hop hup
    simp only [Bool.and_eq_true, decide_eq_true_eq, List.any_eq_true] at hout
    obtain ⟨⟨hstatus, hconfirms⟩, v, hv, hcurrent, hearly⟩ := hout
    obtain ⟨call, hwrite⟩ := appliedWrite_of_check (by decide) hconfirms
    have hsince := (hall pre e post hsplit check m 2 6 call hop hup hstatus hwrite).2
    exact absurd (hsince.evidence v hv hcurrent) (not_lt.mpr hearly)
  · cases hout

/-- The revision moves after the reconciliation, and the tests are run again. -/
def reverifiedRun : List EngineAction :=
  testsPass 0 ++
    engineCall 1 (.recordToolStart "write_file" "{}" { callId := some "call-1" }) 3 ++
    engineCall 2 (.reconcileToolCall "call-1" ⟨.applied, "the file is there"⟩ "operator") 1 ++
    engineCall 3 (.recordFilesChanged ["a.ts"] false {}) 3 ++ testsPass 4 ++
    engineCall 5 (.setStatus .completed {}) 3

theorem completion_notOutlived_reverified : ∃ cfg : EngineConfig,
    Reach (engineSystem plainEngineHost) (createdWorld 0 false ⟨[], [.test]⟩) cfg ∧
      isCompleted cfg.hist.shared = true ∧ cfg.hist.Always fun _ e => NotOutlived e := by
  have hrun : (schedule (engineSystem plainEngineHost) reverifiedRun
      (.start (createdWorld 0 false ⟨[], [.test]⟩))).any (fun cfg =>
        isCompleted cfg.hist.shared && Hist.checkFrom (fun _ e =>
          boundCheck e && (undisturbed e && movedCheck e)) [] cfg.hist.events) = true := by
    decide +kernel
  obtain ⟨cfg, hr, hcheck⟩ := Reach.of_check hrun
  rw [Bool.and_eq_true] at hcheck
  refine ⟨cfg, hr, hcheck.1,
    completion_notOutlived plainEngineHost 0 false ⟨[], [.test]⟩ hr
      (Hist.always_of_check (fun _ e h => ?_) hcheck.2)⟩
  simp only [Bool.and_eq_true] at h
  exact ⟨boundNow_of_check h.1, h.2.1, movedNow_of_check h.2.2⟩

end Wazir.Core
