import Wazir.Async.RelyGuarantee
import Wazir.Core.ExecutionSystem

/-! What the blocks of the execution engine can do to its record: an inversion of all of them at
once. The steps name what is added to the log, the evidence and the evaluation. -/

namespace Wazir.Core

open Relation Wazir.Async

/-- Events that tell of no tool call and of no new revision. -/
def ExecutionEventType.quiet : ExecutionEventType → Bool
  | .toolStarted | .toolCompleted | .toolUnknownOutcome | .revisionChanged => false
  | _ => true

/-- What is asked of the steps: of an event that settles a call, and of the revision that evidence
or an evaluation is bound to. -/
structure StepRules where
  result : ExecutionRecord → ExecutionEvent → Prop
  bound : ExecutionRecord → ℕ → Prop

/-- One change of a record. -/
inductive RecordStep (rules : StepRules) (r : ExecutionRecord) : ExecutionRecord → Prop where
  /-- Something that the log, the evidence and the revision do not show. -/
  | framed (r' : ExecutionRecord) (events : r'.events = r.events) (revision : r'.revision = r.revision)
    (evidence : r'.evidence = r.evidence) (evaluation : r'.evaluation = r.evaluation)
    (acceptance : r'.acceptance = r.acceptance) : RecordStep rules r r'
  | quiet (now : ℤ) (type : ExecutionEventType) (data : ExecutionEventData)
    (identity : ExecutionEventIdentity) (quiet : type.quiet = true) :
    RecordStep rules r (r.push now type data identity)
  | started (now : ℤ) (call : ToolCallCheckpoint) (identity : ExecutionEventIdentity)
    (named : identity.callId = some call.callId)
    (fresh : ∀ c ∈ r.toolCheckpoints, c.callId ≠ call.callId)
    (alone : call.sideEffectClass ≠ .readOnly → ∀ c ∈ r.toolCheckpoints, c.unresolvedWrite = false)
    (revision : call.workspaceRevision = r.revision) :
    RecordStep rules r (r.push now .toolStarted (.dispatch call) identity)
  | settled (now : ℤ) (type : ExecutionEventType) (d : ToolResultData)
    (identity : ExecutionEventIdentity)
    (result : type = .toolCompleted ∨ type = .toolUnknownOutcome)
    (named : identity.callId = some d.callId)
    (allowed : rules.result r (r.newEvent now type (.result d) identity)) :
    RecordStep rules r (r.push now type (.result d) identity)
  | advanced (r' : ExecutionRecord) (new : List ExecutionEvent)
    (events : r'.events = r.events ++ new) (revision : r'.revision = r.revision + 1)
    (told : ∀ e ∈ new, e.workspaceRevision = r.revision + 1 ∧
      (e.type.quiet = true ∨ e.type = .revisionChanged))
    (evidence : r'.evidence = r.evidence) (evaluation : r'.evaluation = r.evaluation)
    (acceptance : r'.acceptance = r.acceptance) (grown : new ≠ []) : RecordStep rules r r'
  | evidence (e : VerificationEvidence) (bound : rules.bound r e.workspaceRevision)
    (recorded : e.recordedAt = r.events.length) :
    RecordStep rules r { r with evidence := r.evidence ++ [e] }
  | cleared : RecordStep rules r r.clearEvidence
  | evaluated (e : EvaluationResult) (bound : ∀ n, e.workspaceRevision = some n → rules.bound r n)
    (recorded : e.recordedAt = r.events.length) :
    RecordStep rules r { r with evaluation := some e }

abbrev Steps (rules : StepRules) : ExecutionRecord → ExecutionRecord → Prop :=
  ReflTransGen (RecordStep rules)

/-- What a block does to the engine: steps of its record, and one snapshot at most, of the record it
leaves. -/
structure BlockStep (rules : StepRules) (m m' : ExecutionEngine) : Prop where
  record : Steps rules m.record m'.record
  process : m'.process = m.process
  landed : m'.landed = m.landed
  failure : m'.persistenceFailure = m.persistenceFailure
  pending : m'.pending = m.pending ∨ m'.pending = m.pending ++ [m'.record]

variable {identity : ExecutionEventIdentity} {data : ExecutionEventData}

namespace Steps

variable {rules : StepRules} {r r' : ExecutionRecord}

theorem framed (events : r'.events = r.events) (revision : r'.revision = r.revision)
    (evidence : r'.evidence = r.evidence) (evaluation : r'.evaluation = r.evaluation)
    (acceptance : r'.acceptance = r.acceptance) : Steps rules r r' :=
  .single (.framed r' events revision evidence evaluation acceptance)

theorem status (s : ExecutionStatus) : Steps rules r { r with status := s } :=
  framed rfl rfl rfl rfl rfl

theorem push (h : Steps rules r r') {now : ℤ} {type : ExecutionEventType}
    (hquiet : type.quiet = true) :
    Steps rules r (r'.push now type data identity) :=
  h.tail (.quiet now type data identity hquiet)

/-- An event of a caller's own, or one that is there already. -/
theorem pushEvent (h : Steps rules r r') {now : ℤ} {type : ExecutionEventType}
    (hquiet : type.quiet = true) {r'' : ExecutionRecord}
    (hok : r'.pushEvent now type data identity = .ok r'') :
    Steps rules r r'' := by
  unfold ExecutionRecord.pushEvent at hok
  split at hok
  · cases hok
    exact h.push hquiet
  · split_ifs at hok
    cases hok
    exact h

theorem pushRun (h : Steps rules r r') {now : ℤ} {type : EvidenceType} :
    Steps rules r (r'.pushRun now type) := by
  unfold ExecutionRecord.pushRun
  split
  · exact h.push rfl
  · exact h.push rfl
  · exact h

end Steps

variable {r : ExecutionRecord}

namespace BlockStep

variable {rules : StepRules} {m m₁ : ExecutionEngine}

theorem refl (m : ExecutionEngine) : BlockStep rules m m :=
  ⟨.refl, rfl, rfl, rfl, .inl rfl⟩

theorem withRecord (h : Steps rules m.record r) :
    BlockStep rules m (m.withRecord r) :=
  ⟨h, rfl, rfl, rfl, .inl rfl⟩

theorem flush (h : BlockStep rules m m₁) (hp : m₁.pending = m.pending) :
    BlockStep rules m m₁.flush.2 := by
  unfold ExecutionEngine.flush
  split
  · exact h
  · exact ⟨h.record.tail (.framed _ rfl rfl rfl rfl rfl), h.process, h.landed, h.failure,
      .inr (by simp [hp])⟩

theorem flushed (h : Steps rules m.record r) :
    BlockStep rules m (m.withRecord r).flush.2 :=
  (withRecord h).flush rfl

theorem after {α β : Type} {check : Except EngineError α} {rest : α → Ran β}
    (h : ∀ a, check = .ok a → BlockStep rules m (rest a).2) :
    BlockStep rules m (m.after check rest).2 := by
  cases check with
  | error e => exact refl m
  | ok a => exact h a rfl

end BlockStep

/-! Calls whose outcome is open. -/

/-- No outcome of the call is confirmed. -/
def ExecutionRecord.Open (r : ExecutionRecord) (callId : String) : Prop :=
  ∀ c ∈ r.toolCheckpoints, c.callId = callId → c.state.unresolved = true

theorem open_of_unresolved {call : ToolCallCheckpoint} (hcall : call ∈ r.toolCheckpoints)
    (h : call.state.unresolved = true) : r.Open call.callId := by
  intro c hc hid
  rw [toolCheckpoint_unique hc hcall hid]
  exact h

theorem toolCheckpoints_push_quiet {now : ℤ} {type : ExecutionEventType}
    (hquiet : type.quiet = true) :
    (r.push now type data identity).toolCheckpoints = r.toolCheckpoints := by
  unfold ExecutionRecord.toolCheckpoints ExecutionRecord.push
  rw [toolCheckpoints_append, applyEvent_other]
  all_goals
    intro h
    rw [show type = _ from h] at hquiet
    cases hquiet

theorem ExecutionRecord.Open.pushUnknown {callId : String} (h : r.Open callId) (now : ℤ)
    (call : ToolCallCheckpoint) :
    (ExecutionEngine.pushUnknown now r call).Open callId := by
  intro c hc hid
  unfold ExecutionEngine.pushUnknown at hc
  rw [toolCheckpoints_push_quiet rfl] at hc
  unfold ExecutionRecord.toolCheckpoints ExecutionRecord.push at hc
  rw [toolCheckpoints_append] at hc
  rcases mem_applyResult hc with hold | ⟨c', -, rfl⟩
  · exact h c hold hid
  · rfl

variable {r r' : ExecutionRecord}

section Blocks

variable {rules : StepRules} {m : ExecutionEngine} {now : ℤ}

theorem writeStatus_step (status : ExecutionStatus) :
    BlockStep rules m (m.writeStatus status now).2 := by
  unfold ExecutionEngine.writeStatus
  split_ifs
  · exact (BlockStep.refl m).flush rfl
  · refine BlockStep.flushed ((Steps.status status).push ?_)
    cases status <;> rfl

theorem checkStatus_step (status : ExecutionStatus) (options : StatusOptions) :
    BlockStep rules m (m.checkStatus status options now).2 := by
  unfold ExecutionEngine.checkStatus
  split
  · exact BlockStep.refl m
  split_ifs
  · split
    · exact BlockStep.flushed (Steps.push .refl rfl)
    · exact BlockStep.refl m
  · exact writeStatus_step status
  · exact BlockStep.refl m

theorem beginResult_step (sanitize : String → String) (call : ToolCallRecord)
    (claimant : LeaseClaimant) : BlockStep rules m (m.beginResult sanitize call claimant now).2 := by
  refine BlockStep.after fun _ _ => ?_
  split
  · split_ifs
    · exact (BlockStep.refl m).flush rfl
    · exact BlockStep.refl m
  · exact BlockStep.withRecord (.framed rfl rfl rfl rfl rfl)

theorem pushResult_step (call : ToolCallRecord) (callId : String) (stepId : Option String)
    (h : rules.result m.record (m.record.newEvent now .toolCompleted
      (.result (call.resultData callId)) { callId := some callId, stepId := stepId })) :
    BlockStep rules m (m.pushResult call callId stepId now).2 := by
  refine BlockStep.flushed (Steps.push (.single (.settled now .toolCompleted _ _ (.inl rfl) rfl h)) ?_)
  unfold ToolCallRecord.outcomeType
  split_ifs <;> rfl

theorem dispatch_step (hash : String → String) (tool input callId : String)
    (options : ToolStartOptions) :
    BlockStep rules m (m.dispatch hash tool input callId options now).2 := by
  unfold ExecutionEngine.dispatch
  simp only
  split_ifs with hfresh halone
  · exact BlockStep.refl m
  · exact BlockStep.refl m
  · refine BlockStep.flushed (Steps.push (.single (.started now _ _ rfl ?_ ?_ rfl)) rfl)
    · intro c hc heq
      exact hfresh (List.any_eq_true.mpr ⟨c, hc, decide_eq_true heq⟩)
    · intro hclass c hc
      rw [Bool.and_eq_true, not_and] at halone
      have hnot : options.sideEffectClass ≠ some .readOnly := by
        rintro heq
        exact hclass (by simp [ExecutionEngine.newCheckpoint, heq])
      simpa using fun hwrite => halone (by simpa using hnot) (List.any_eq_true.mpr ⟨c, hc, hwrite⟩)

/-- `pushEvent` of an event that settles a call. -/
theorem pushEvent_settled {d : ToolResultData} (named : identity.callId = some d.callId)
    (h : rules.result m.record (m.record.newEvent now .toolCompleted (.result d) identity))
    (hok : m.record.pushEvent now .toolCompleted (.result d) identity = .ok r) :
    Steps rules m.record r := by
  unfold ExecutionRecord.pushEvent at hok
  split at hok
  · cases hok
    exact .single (.settled now .toolCompleted d identity (.inl rfl) named h)
  · split_ifs at hok
    cases hok
    exact .refl

theorem reconcileToolCall_step (callId : String) (inspection : ToolOutcomeInspection)
    (inspectedBy : String)
    (h : ∀ call ∈ m.record.toolCheckpoints, m.record.Open call.callId → ∀ proof identity,
      identity.callId = some call.callId → rules.result m.record (m.record.newEvent now .toolCompleted
        (.result (ExecutionEngine.reconciledData call proof)) identity)) :
    BlockStep rules m (m.reconcileToolCall callId inspection inspectedBy now).2 := by
  refine BlockStep.after fun _ _ => ?_
  split
  · exact BlockStep.refl m
  rename_i call hcall
  split_ifs with hstate hproof
  · exact BlockStep.refl m
  · exact BlockStep.refl m
  have hmem := List.mem_of_find?_eq_some hcall
  refine BlockStep.after fun first hfirst => ?_
  have hsteps : Steps rules m.record first :=
    pushEvent_settled rfl
      (h call hmem (open_of_unresolved hmem (by simpa using hstate)) _ _ rfl) hfirst
  have hwith := BlockStep.withRecord hsteps
  unfold ExecutionEngine.after
  split
  · exact hwith
  · rename_i second hsecond
    refine BlockStep.flushed (hsteps.pushEvent ?_ hsecond)
    split_ifs <;> rfl

/-- More events at the same revision. -/
structure Tells (r r' : ExecutionRecord) : Prop where
  events : ∃ new, r'.events = r.events ++ new ∧ ∀ e ∈ new, e.workspaceRevision = r.revision ∧
    (e.type.quiet = true ∨ e.type = .revisionChanged)
  revision : r'.revision = r.revision
  evidence : r'.evidence = r.evidence
  evaluation : r'.evaluation = r.evaluation
  acceptance : r'.acceptance = r.acceptance

theorem Tells.refl (r : ExecutionRecord) : Tells r r :=
  ⟨⟨[], by simp⟩, rfl, rfl, rfl, rfl⟩

theorem Tells.push (h : Tells r r') (now : ℤ) (type : ExecutionEventType)
    (data : ExecutionEventData) (htype : type.quiet = true ∨ type = .revisionChanged) :
    Tells r (r'.push now type data) := by
  obtain ⟨new, hevents, hnew⟩ := h.events
  refine ⟨⟨new ++ [r'.newEvent now type data {}], ?_, fun e he => ?_⟩, h.revision, h.evidence,
    h.evaluation, h.acceptance⟩
  · rw [ExecutionRecord.push, hevents, List.append_assoc]
  · rcases List.mem_append.mp he with he | he
    · exact hnew e he
    · rw [List.mem_singleton.mp he]
      exact ⟨h.revision, htype⟩

theorem Tells.files (h : Tells r r') (files : List String) :
    Tells r { r' with filesChanged := files } :=
  ⟨h.events, h.revision, h.evidence, h.evaluation, h.acceptance⟩

theorem Tells.foldl (now : ℤ) (files : List String) (h : Tells r r') :
    Tells r (files.foldl (ExecutionEngine.fileChanged now) r') := by
  induction files generalizing r' with
  | nil => exact h
  | cons file rest ih => exact ih ((h.files _).push now .fileChanged (.note file) (.inl rfl))

theorem Tells.staleEvidence (now : ℤ) (h : Tells r r') :
    Tells r (ExecutionEngine.staleEvidence now r') := by
  unfold ExecutionEngine.staleEvidence
  split_ifs
  · exact (h.push now .verificationInvalidated _ (.inl rfl)).push now .evidenceStale _ (.inl rfl)
  · exact h

theorem staleEvidence_grows (now : ℤ) (r : ExecutionRecord) :
    r.events <+: (ExecutionEngine.staleEvidence now r).events := by
  unfold ExecutionEngine.staleEvidence
  split_ifs
  · exact (List.prefix_append _ _).trans (List.prefix_append _ _)
  · exact List.prefix_rfl

theorem changedFiles_step (r : ExecutionRecord) (files : List String) (mutated : Bool) :
    Steps rules r (ExecutionEngine.changedFiles r files mutated now) := by
  have hmutated : Tells { r with revision := r.revision + 1 }
      (if mutated then
        { r with revision := r.revision + 1 }.push now .workspaceMutated (.note "mutations")
      else { r with revision := r.revision + 1 }) := by
    split_ifs
    · exact (Tells.refl _).push now .workspaceMutated _ (.inl rfl)
    · exact Tells.refl _
  have hchanged := (hmutated.foldl now files).push now .revisionChanged (.note "files") (.inr rfl)
  have htold := (hchanged.push now .workspaceRevisionChanged (.note "files") (.inl rfl)).staleEvidence
    now
  obtain ⟨before, hbefore, -⟩ := hchanged.events
  obtain ⟨new, hevents, hnew⟩ := htold.events
  have hgrown : new ≠ [] := by
    rintro rfl
    have hlength := (staleEvidence_grows now _).length_le.trans_eq (congrArg List.length hevents)
    rw [ExecutionRecord.push, List.length_append, hbefore] at hlength
    simp only [List.length_append, List.length_singleton, List.length_nil] at hlength
    omega
  exact .single (.advanced _ new hevents htold.revision hnew htold.evidence htold.evaluation
    htold.acceptance hgrown)

theorem changeFiles_step (files : List String) (mutated registers : Bool) :
    BlockStep rules m (m.changeFiles files mutated registers now).2 := by
  unfold ExecutionEngine.changeFiles
  simp only
  split_ifs
  · exact BlockStep.withRecord (changedFiles_step ..)
  · exact BlockStep.flushed (changedFiles_step ..)

theorem recordEvidence_step (e : EvidenceInput) (bound : ℕ) (h : rules.bound m.record bound) :
    BlockStep rules m (m.recordEvidence e bound now).2 :=
  BlockStep.flushed (Steps.pushRun (.single (.evidence _ h rfl)))

theorem recordCheck_step (check : CheckRunRecord) (claimant : LeaseClaimant)
    (h : ∀ r, r.revision = m.record.revision →
      rules.bound r (check.workspaceRevision.getD m.record.revision)) :
    BlockStep rules m (m.recordCheck check claimant now).2 :=
  BlockStep.after fun _ _ => BlockStep.flushed (Steps.pushRun (ReflTransGen.tail
    (Steps.push .refl rfl)
    (.evidence _ (h (m.record.push now .checkCompleted (.note "check")) rfl) rfl)))

theorem setEvaluation_step (e : EvaluationInput) (claimant : LeaseClaimant) (registers : Bool)
    (h : ∀ n, e.workspaceRevision = some n → rules.bound m.record n) :
    BlockStep rules m (m.setEvaluation e claimant registers now).2 := by
  refine BlockStep.after fun _ _ => ?_
  have hsteps : Steps rules m.record ({ m.record with
      evaluation := some ⟨e.success, e.workspaceRevision, m.record.events.length⟩ }.push now
      .evaluationCompleted (.note "evaluation")) :=
    Steps.push (.single (.evaluated _ h rfl)) rfl
  simp only
  split_ifs
  · exact BlockStep.withRecord hsteps
  · exact BlockStep.flushed hsteps

theorem recordEvent_step (event : RecordedEvent) (json : String)
    (identity : ExecutionEventIdentity) (claimant : LeaseClaimant) :
    BlockStep rules m (m.recordEvent event json identity claimant now).2 := by
  refine BlockStep.after fun _ _ => ?_
  have hsteps : Steps rules m.record (m.record.requeued event) := by
    cases event with
    | resumed =>
      unfold ExecutionRecord.requeued
      simp only
      split_ifs
      · exact .status _
      · exact .refl
    | other name => exact .refl
  simp only
  unfold ExecutionEngine.after
  split
  · exact BlockStep.withRecord hsteps
  · rename_i r hr
    refine BlockStep.flushed (hsteps.pushEvent ?_ hr)
    cases event <;> rfl

theorem orphan_step : BlockStep rules m (m.orphan now).2 := by
  refine BlockStep.after fun _ _ => ?_
  split_ifs
  · exact BlockStep.refl m
  · exact BlockStep.refl m
  · exact BlockStep.flushed ((Steps.status _).push rfl)

theorem putLease_step (lease : ExecutionLease) (type : ExecutionEventType)
    (hquiet : type.quiet = true) : BlockStep rules m (m.putLease lease type now).2 := by
  have h : BlockStep rules m { m with
      lease := some lease, record := m.record.push now type (.lease lease) } :=
    ⟨Steps.push .refl hquiet, rfl, rfl, rfl, .inl rfl⟩
  exact h.flush rfl

theorem acquireLease_step (workerId : String) (ttlMs start : Option ℤ) (uuid : String) :
    BlockStep rules m (m.acquireLease workerId ttlMs start uuid now).2 := by
  refine BlockStep.after fun _ _ => ?_
  simp only
  split_ifs
  · exact BlockStep.refl m
  · exact BlockStep.refl m
  · exact BlockStep.refl m
  · exact putLease_step _ .leaseAcquired rfl

theorem renewLease_step (workerId : String) (options : RenewOptions) :
    BlockStep rules m (m.renewLease workerId options now).2 := by
  refine BlockStep.after fun _ _ => ?_
  split
  · exact BlockStep.refl m
  · exact putLease_step _ _ rfl

theorem releaseLease_step (workerId : String) (options : RenewOptions) :
    BlockStep rules m (m.releaseLease workerId options now).2 := by
  refine BlockStep.after fun _ _ => ?_
  split
  · exact BlockStep.refl m
  · exact putLease_step _ _ rfl

theorem moveTo_step (status : ExecutionStatus) (type : ExecutionEventType)
    (hquiet : type.quiet = true) : BlockStep rules m (m.moveTo status type now).2 := by
  refine BlockStep.after fun _ _ => ?_
  split_ifs
  · exact BlockStep.flushed ((Steps.status _).push hquiet)
  · exact BlockStep.refl m

theorem steer_step (params : SteeringParams) : BlockStep rules m (m.steer params now).2 := by
  refine BlockStep.after fun _ _ => BlockStep.flushed (Steps.push ?_ rfl)
  have hroute : Steps rules m.record (if params.changeModelRouting then
      m.record.push now .modelRouteChanged (.note "model") else m.record) := by
    split_ifs
    · exact Steps.push .refl rfl
    · exact .refl
  by_cases hforce : params.forceReverification
  · rw [if_pos hforce]
    exact ReflTransGen.tail (hroute.push rfl) .cleared
  · rwa [if_neg hforce]

section Recovery

variable (hunknown : ∀ (r : ExecutionRecord) (call : ToolCallCheckpoint), r.Open call.callId →
  ∀ identity : ExecutionEventIdentity, identity.callId = some call.callId →
    rules.result r (r.newEvent now .toolUnknownOutcome
      (.result (ExecutionEngine.unknownData call)) identity))

include hunknown

theorem foldl_pushUnknown (calls : List ToolCallCheckpoint) (r : ExecutionRecord)
    (hopen : ∀ call ∈ calls, r.Open call.callId) :
    Steps rules r (calls.foldl (ExecutionEngine.pushUnknown now) r) := by
  induction calls generalizing r with
  | nil => exact .refl
  | cons call rest ih =>
    have hfirst : Steps rules r (ExecutionEngine.pushUnknown now r call) :=
      Steps.push (.single (.settled now .toolUnknownOutcome _ _ (.inr rfl) rfl
        (hunknown r call (hopen call List.mem_cons_self) _ rfl))) rfl
    exact hfirst.trans (ih _ fun c hc => (hopen c (List.mem_cons_of_mem _ hc)).pushUnknown now call)

theorem recovered_step (r : ExecutionRecord) (view : OwnerView) :
    Steps rules r (ExecutionEngine.recovered r view now) := by
  have hcalls : Steps rules r
      ((r.toolCheckpoints.filter (·.state = .started)).foldl (ExecutionEngine.pushUnknown now) r) := by
    refine foldl_pushUnknown hunknown _ r fun call hcall => ?_
    obtain ⟨hmem, hstarted⟩ := List.mem_filter.mp hcall
    exact open_of_unresolved hmem (by rw [of_decide_eq_true hstarted]; rfl)
  unfold ExecutionEngine.recovered
  simp only
  split_ifs
  · exact Steps.push (hcalls.trans (Steps.status .failed)) rfl
  · exact hcalls

theorem recover_step (fastStartup : Bool) (view : OwnerView) :
    BlockStep rules m (m.recover fastStartup view now).2 := by
  unfold ExecutionEngine.recover
  simp only
  split_ifs
  · exact BlockStep.refl m
  · exact BlockStep.refl m
  · exact BlockStep.flushed (recovered_step hunknown ..)

end Recovery

theorem orphanStranded_step (view : OwnerView) :
    BlockStep rules m (m.orphanStranded view now).2 := by
  unfold ExecutionEngine.orphanStranded
  split_ifs
  · exact orphan_step
  · exact BlockStep.refl m

theorem survey_step (view : OwnerView) : BlockStep rules m (m.survey view).2 := by
  unfold ExecutionEngine.survey
  split_ifs
  · exact BlockStep.refl m
  · exact BlockStep.after fun _ _ => BlockStep.refl m

end Blocks

/-- The revision that a block binds new evidence or a new evaluation to. -/
def EngineBlock.Binds (m : ExecutionEngine) (n : ℕ) : EngineBlock → Prop
  | .recordEvidence _ bound => n = bound
  | .recordCheck check _ => n = check.workspaceRevision.getD m.record.revision
  | .setEvaluation e _ => e.workspaceRevision = some n
  | _ => False

/-- The event by which a late or timely result settles its call. -/
def resultEvent (m : ExecutionEngine) (call : ToolCallRecord) (callId : String)
    (stepId : Option String) (now : ℤ) : ExecutionEvent :=
  m.record.newEvent now .toolCompleted (.result (call.resultData callId))
    { callId := some callId, stepId := stepId }

/-- The rules allow whatever the block may do. -/
structure StepRules.Allow (rules : StepRules) (m : ExecutionEngine) (now : ℤ) (b : EngineBlock) :
    Prop where
  unknown : ∀ (r : ExecutionRecord) (call : ToolCallCheckpoint), r.Open call.callId →
    ∀ identity : ExecutionEventIdentity, identity.callId = some call.callId →
      rules.result r (r.newEvent now .toolUnknownOutcome
        (.result (ExecutionEngine.unknownData call)) identity)
  reconciled : ∀ call ∈ m.record.toolCheckpoints, m.record.Open call.callId →
    ∀ (proof : Reconciliation) (identity : ExecutionEventIdentity),
      identity.callId = some call.callId → rules.result m.record (m.record.newEvent now
        .toolCompleted (.result (ExecutionEngine.reconciledData call proof)) identity)
  result : ∀ call callId stepId, b = .pushResult call callId stepId →
    rules.result m.record (resultEvent m call callId stepId now)
  bound : ∀ r n, r.revision = m.record.revision → b.Binds m n → rules.bound r n

theorem block_step {rules : StepRules} {m : ExecutionEngine} {inp : EngineInput} (host : EngineHost)
    (b : EngineBlock) (h : rules.Allow m inp.now b) :
    BlockStep rules m (b.run host inp m).2 := by
  cases b with
  | recover fastStartup => exact recover_step h.unknown _ _
  | checkStatus status options => exact checkStatus_step _ _
  | complete check => exact writeStatus_step _
  | beginResult call claimant => exact beginResult_step _ _ _
  | pushResult call callId stepId => exact pushResult_step _ _ _ (h.result call callId stepId rfl)
  | beginStart options => exact BlockStep.after fun _ _ => BlockStep.refl m
  | dispatch tool input callId options => exact dispatch_step _ _ _ _ _
  | reconcile callId inspection inspectedBy => exact reconcileToolCall_step _ _ _ h.reconciled
  | assertLive claimant => exact BlockStep.after fun _ _ => BlockStep.refl m
  | changeFiles files mutated => exact changeFiles_step _ _ _
  | flush => exact (BlockStep.refl m).flush rfl
  | recordEvidence e bound => exact recordEvidence_step _ _ (h.bound _ _ rfl rfl)
  | recordCheck check claimant =>
    exact recordCheck_step _ _ fun r hr => h.bound r _ hr rfl
  | setEvaluation e claimant => exact setEvaluation_step _ _ _ fun n hn => h.bound _ n rfl hn
  | recordEvent event json identity claimant => exact recordEvent_step _ _ _ _
  | orphan => exact orphan_step
  | acquireLease workerId ttlMs start => exact acquireLease_step _ _ _ _
  | renewLease workerId options => exact renewLease_step _ _
  | releaseLease workerId options => exact releaseLease_step _ _
  | pause => exact moveTo_step _ _ rfl
  | resume => exact moveTo_step _ _ rfl
  | steer params => exact steer_step _
  | toolCheckpoints => exact BlockStep.after fun _ _ => BlockStep.refl m
  | getWorkspaceRevision => exact BlockStep.after fun _ _ => BlockStep.refl m
  | survey => exact survey_step _
  | orphanStranded => exact orphanStranded_step _

/-! Runs. A record is in memory, on its way to the store, or in the store; each was in memory once. -/

abbrev EngineHist := Hist EngineOp EngineOp.Res EngineRequest ℕ EngineInput ExecutionWorld

abbrev EngineEntry := Entry EngineOp EngineOp.Res EngineRequest EngineInput ExecutionWorld

abbrev EngineConfig :=
  Config EngineOp EngineOp.Res EngineError EngineAnswer EngineRequest ℕ EngineInput ExecutionWorld

/-- `P` holds of every record there is of the execution. -/
structure ExecutionWorld.Everywhere (P : ExecutionRecord → Prop) (w : ExecutionWorld) : Prop where
  durable : P w.durable
  memory : ∀ m, w.engine = some m → P m.record
  pending : ∀ m, w.engine = some m → ∀ r ∈ m.pending, P r

/-- What one executed command does to the world. -/
inductive WorldStep (host : EngineHost) (inp : EngineInput) (w : ExecutionWorld) :
    EngineOp → ExecutionWorld → Prop where
  | load (process : ℕ) (down : w.engine = none) : WorldStep host inp w (.load process)
      { w with engine := some (loadedEngine host.stored process w.durable inp.loadFails) }
  | block (b : EngineBlock) (m : ExecutionEngine) (up : w.engine = some m) :
      WorldStep host inp w (.block b) { w with engine := some (b.run host inp m).2 }
  | write (m : ExecutionEngine) (up : w.engine = some m) :
      WorldStep host inp w .write (ExecutionWorld.write inp.write m w.durable)
  | none (op : EngineOp) : WorldStep host inp w op w

section Runs

variable {host : EngineHost} {inp : EngineInput} {op : EngineOp} {res : op.Res}
  {w w' : ExecutionWorld}

theorem engineExec_step (h : engineExec host op inp w = some (res, w')) :
    WorldStep host inp w op w' := by
  unfold engineExec at h
  cases hup : w.engine with
  | none =>
    cases op <;> simp only [hup, reduceCtorEq, Option.some.injEq, Prod.mk.injEq] at h
    obtain ⟨-, rfl⟩ := h
    exact .load _ hup
  | some m =>
    cases op <;> simp only [hup, reduceCtorEq, Option.some.injEq, Prod.mk.injEq,
      Option.map_eq_some_iff] at h
    case block b =>
      obtain ⟨-, rfl⟩ := h
      exact .block b m hup
    case write =>
      obtain ⟨-, rfl⟩ := h
      exact .write m hup
    case written =>
      obtain ⟨_, -, -, rfl⟩ := h
      exact .none _
    all_goals
      obtain ⟨-, rfl⟩ := h
      exact .none _

variable {P : ExecutionRecord → Prop} {rules : StepRules}

/-- The next write takes a snapshot that was pending, and leaves the engine's record alone. -/
theorem Everywhere.write {outcome : WriteOutcome} {m : ExecutionEngine} (hup : w.engine = some m)
    (h : w.Everywhere P) : (ExecutionWorld.write outcome m w.durable).Everywhere P := by
  have hm := h.memory m hup
  have hpending := h.pending m hup
  unfold ExecutionWorld.write
  split
  · rename_i r rest hrest _
    rw [hrest] at hpending
    have hrests : ∀ r' ∈ rest, P r' := fun r' hr' => hpending r' (List.mem_cons_of_mem _ hr')
    split
    · refine ⟨hpending r List.mem_cons_self, fun m' hm' => ?_, fun m' hm' => ?_⟩
      · cases hm'
        exact hm
      · cases hm'
        exact hrests
    · refine ⟨?_, fun m' hm' => ?_, fun m' hm' => ?_⟩
      · simp only
        split_ifs
        · exact hpending r List.mem_cons_self
        · exact h.durable
      · cases hm'
        exact hm
      · cases hm'
        rwa [hrest]
  · refine ⟨h.durable, fun m' hm' => ?_, fun m' hm' => ?_⟩
    · cases hm'
      exact hm
    · cases hm'
      exact hpending

theorem Steps.keep (hstep : ∀ r r', P r → RecordStep rules r r' → P r') (h : Steps rules r r')
    (hr : P r) : P r' := by
  induction h with
  | refl => exact hr
  | tail _ hs ih => exact hstep _ _ ih hs

theorem Everywhere.exec (hstep : ∀ r r', P r → RecordStep rules r r' → P r')
    (hallow : ∀ m b, w.engine = some m → op = .block b → rules.Allow m inp.now b)
    (h : w.Everywhere P) (hx : engineExec host op inp w = some (res, w')) : w'.Everywhere P := by
  cases engineExec_step hx with
  | load process hdown =>
    refine ⟨h.durable, fun m hm => ?_, fun m hm => ?_⟩
    · cases hm
      exact h.durable
    · cases hm
      exact List.forall_mem_nil _
  | block b m hup =>
    have hb := block_step host b (hallow m b hup rfl)
    have hrecord : P (b.run host inp m).2.record := Steps.keep hstep hb.record (h.memory m hup)
    refine ⟨h.durable, fun m' hm' => ?_, fun m' hm' r hr => ?_⟩
    · cases hm'
      exact hrecord
    · cases hm'
      rcases hb.pending with heq | heq
      · exact h.pending m hup r (heq ▸ hr)
      · rw [heq, List.mem_append, List.mem_singleton] at hr
        rcases hr with hold | rfl
        · exact h.pending m hup r hold
        · exact hrecord
  | write m hup => exact Everywhere.write hup h
  | none => exact h

/-- What the steps that a run's condition allows keep holds everywhere in every such run. -/
theorem everywhere_reached {cond : EngineEntry → Prop} {w₀ : ExecutionWorld}
    (hstep : ∀ r r', P r → RecordStep rules r r' → P r')
    (hallow : ∀ (e : EngineEntry) (m : ExecutionEngine) (b : EngineBlock), cond e →
      e.before.engine = some m → e.op = .block b → P m.record → rules.Allow m e.input.now b)
    (hstart : w₀.Everywhere P) {cfg : EngineConfig} (hr : Reach (engineSystem host) w₀ cfg)
    (hcond : cfg.hist.Always fun _ e => cond e) : cfg.hist.shared.Everywhere P := by
  refine Reach.invariant (S := engineSystem host)
    (I := fun h : EngineHist => (h.Always fun _ e => cond e) → h.shared.Everywhere P)
    (fun _ => hstart) ?_ ?_ ?_ hr hcond
  · intro h i c s ih hadm hok
    have hsame : s = h.shared := by
      change engineAdmits c h.shared = some s at hadm
      unfold engineAdmits at hadm
      split at hadm
      · exact (Option.some.inj hadm).symm
      · cases hadm
      · cases hadm
      · split_ifs at hadm
        exact (Option.some.inj hadm).symm
    rw [Hist.push_shared, hsame]
    exact ih hok.past
  · intro h i c op inp r s ih hx hok
    have hnow := hok.last rfl
    have hbefore := ih hok.past
    refine Everywhere.exec hstep (fun m b hup hop => ?_) hbefore hx
    exact hallow _ m b hnow hup hop (hbefore.memory m hup)
  · intro h p ih hok
    have hbefore := ih hok.past
    change (if h.shared.engine.any (·.process = p) then
      { h.shared with engine := none } else h.shared).Everywhere P
    split_ifs
    · exact ⟨hbefore.durable, by rintro m ⟨⟩, by rintro m ⟨⟩⟩
    · exact hbefore

end Runs

end Wazir.Core
