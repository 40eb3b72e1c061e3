import Wazir.Async.Trace
import Wazir.Core.ToolCallsSound

/-! Completions and the facts behind them. `setStatus` checks the lease, the transition, the tool
calls and the evidence, awaits a fault hook and then writes the status without another look: the
completion is backed where nothing that the checks read has changed by the write. Every other block
moves the status along the transitions, and none of them to `completed`. -/

namespace Wazir.Core

open Wazir.Async

/-- A move that `setStatus` could have made, but not to `completed`. -/
def StatusMove (before after : ExecutionStatus) : Prop :=
  after = before ∨ canTransitionExecution before after = true ∧ after ≠ .completed

theorem StatusMove.refl (s : ExecutionStatus) : StatusMove s s := .inl rfl

theorem StatusMove.terminal {before after : ExecutionStatus} (h : StatusMove before after)
    (hterminal : before ∈ terminalExecution) :
    after = before ∨ before = .failed ∧ after ∈ executionRetryTargets :=
  h.elim .inl fun h => canTransition_terminal h.1 hterminal

section Blocks

variable {m : ExecutionEngine} {now : ℤ}

theorem flush_status : m.flush.2.record.status = m.record.status := by
  unfold ExecutionEngine.flush
  split <;> rfl

@[simp] theorem push_status (r : ExecutionRecord) (type : ExecutionEventType)
    (data : ExecutionEventData) (identity : ExecutionEventIdentity) :
    (r.push now type data identity).status = r.status := rfl

theorem pushEvent_status {r r' : ExecutionRecord} {type : ExecutionEventType}
    {data : ExecutionEventData} {identity : ExecutionEventIdentity}
    (h : r.pushEvent now type data identity = .ok r') : r'.status = r.status := by
  unfold ExecutionRecord.pushEvent at h
  split at h
  · cases h
    rfl
  · split_ifs at h
    cases h
    rfl

theorem pushRun_status (r : ExecutionRecord) (type : EvidenceType) :
    (r.pushRun now type).status = r.status := by
  unfold ExecutionRecord.pushRun
  split <;> rfl

theorem foldl_status {α : Type} {f : ExecutionRecord → α → ExecutionRecord}
    (hf : ∀ r a, (f r a).status = r.status) (items : List α) (r : ExecutionRecord) :
    (items.foldl f r).status = r.status := by
  induction items generalizing r with
  | nil => rfl
  | cons a rest ih => rw [List.foldl_cons, ih, hf]

theorem fileChanged_status (r : ExecutionRecord) (file : String) :
    (ExecutionEngine.fileChanged now r file).status = r.status := rfl

theorem changedFiles_status (r : ExecutionRecord) (files : List String) (mutated : Bool) :
    (ExecutionEngine.changedFiles r files mutated now).status = r.status := by
  have hstale : ∀ r, (ExecutionEngine.staleEvidence now r).status = r.status := by
    intro r
    unfold ExecutionEngine.staleEvidence
    split_ifs <;> rfl
  unfold ExecutionEngine.changedFiles
  simp only [hstale, push_status, foldl_status fileChanged_status]
  split_ifs <;> rfl

theorem writeStatus_status (status : ExecutionStatus) :
    (m.writeStatus status now).2.record.status = status := by
  unfold ExecutionEngine.writeStatus
  split_ifs with h
  · rw [flush_status, h.1]
  · rw [flush_status]
    rfl

theorem after_status {α β : Type} {check : Except EngineError α} {rest : α → Ran β}
    (h : ∀ a, check = .ok a → StatusMove m.record.status (rest a).2.record.status) :
    StatusMove m.record.status (m.after check rest).2.record.status := by
  cases check with
  | error e => exact .refl _
  | ok a => exact h a rfl

theorem orphan_status : StatusMove m.record.status (m.orphan now).2.record.status := by
  refine after_status fun _ _ => ?_
  split_ifs with hrefused hfailed
  · exact .refl _
  · exact .refl _
  · rw [flush_status]
    have hallowed : canTransitionExecution m.record.status .failed = true := by simpa using hrefused
    exact .inr ⟨hallowed, by rintro ⟨⟩⟩

theorem pushUnknown_status (r : ExecutionRecord) (call : ToolCallCheckpoint) :
    (ExecutionEngine.pushUnknown now r call).status = r.status := rfl

theorem recovered_status (r : ExecutionRecord) (view : OwnerView) :
    StatusMove r.status (ExecutionEngine.recovered r view now).status := by
  have hcalls : ∀ calls : List ToolCallCheckpoint,
      (calls.foldl (ExecutionEngine.pushUnknown now) r).status = r.status := fun calls =>
    foldl_status pushUnknown_status calls r
  unfold ExecutionEngine.recovered
  simp only
  split_ifs with hdead
  · rw [hcalls] at hdead
    refine .inr ⟨?_, by rintro ⟨⟩⟩
    have hactive := hdead.1
    simp only [interruptible, List.mem_cons, List.not_mem_nil, or_false] at hactive
    rcases hactive with h | h | h <;> rw [h] <;> rfl
  · exact .inl (hcalls _)

theorem moveTo_status {status : ExecutionStatus} {type : ExecutionEventType}
    (h : status ≠ .completed) :
    StatusMove m.record.status (m.moveTo status type now).2.record.status := by
  refine after_status fun _ _ => ?_
  split_ifs with htransition
  · rw [flush_status]
    exact .inr ⟨htransition, h⟩
  · exact .refl _

theorem checkStatus_status (status : ExecutionStatus) (options : StatusOptions) :
    StatusMove m.record.status (m.checkStatus status options now).2.record.status := by
  unfold ExecutionEngine.checkStatus
  split
  · exact .refl _
  split_ifs with htransition hstatus
  · split
    · exact .inl flush_status
    · exact .refl _
  · exact .inr (by rw [writeStatus_status]; exact ⟨htransition, hstatus⟩)
  · exact .refl _

/-- Only the end of a completion moves the status to `completed`. -/
theorem block_status {host : EngineHost} {inp : EngineInput} {b : EngineBlock}
    (h : ∀ check, b ≠ .complete check) :
    StatusMove m.record.status (b.run host inp m).2.record.status := by
  cases b with
  | complete check => exact absurd rfl (h check)
  | recover fastStartup =>
    change StatusMove _ (m.recover fastStartup inp.owner inp.now).2.record.status
    unfold ExecutionEngine.recover
    simp only
    split_ifs
    · exact .refl _
    · exact .refl _
    · rw [flush_status]
      exact recovered_status _ _
  | checkStatus status options => exact checkStatus_status _ _
  | beginResult call claimant =>
    refine after_status fun _ _ => ?_
    split
    · split_ifs
      · exact .inl flush_status
      · exact .refl _
    · exact .refl _
  | pushResult call callId stepId => exact .inl flush_status
  | beginStart options => exact after_status fun _ _ => .refl _
  | dispatch tool input callId options =>
    change StatusMove _ (m.dispatch _ tool input callId options inp.now).2.record.status
    unfold ExecutionEngine.dispatch
    simp only
    split_ifs
    · exact .refl _
    · exact .refl _
    · exact .inl flush_status
  | reconcile callId inspection inspectedBy =>
    refine after_status fun _ _ => ?_
    split
    · exact .refl _
    split_ifs
    · exact .refl _
    · exact .refl _
    · refine after_status fun first hfirst => ?_
      have hsame := pushEvent_status hfirst
      refine .inl (Eq.trans ?_ hsame)
      unfold ExecutionEngine.after
      split
      · rfl
      · rename_i second hsecond
        rw [flush_status]
        exact pushEvent_status hsecond
  | assertLive claimant => exact after_status fun _ _ => .refl _
  | changeFiles files mutated =>
    change StatusMove _ (m.changeFiles files mutated inp.registers inp.now).2.record.status
    unfold ExecutionEngine.changeFiles
    simp only
    split_ifs
    · exact .inl (changedFiles_status ..)
    · exact .inl (flush_status.trans (changedFiles_status ..))
  | flush => exact .inl flush_status
  | recordEvidence e bound => exact .inl (flush_status.trans (pushRun_status _ _))
  | recordCheck check claimant =>
    exact after_status fun _ _ => .inl (flush_status.trans (pushRun_status _ _))
  | setEvaluation e claimant =>
    refine after_status fun _ _ => ?_
    simp only
    split_ifs
    · exact .refl _
    · exact .inl flush_status
  | recordEvent event json identity claimant =>
    refine after_status fun _ _ => ?_
    have hqueued : StatusMove m.record.status (m.record.requeued event).status := by
      cases event with
      | resumed =>
        unfold ExecutionRecord.requeued
        simp only
        split_ifs with hfailed
        · exact .inr (by rw [hfailed]; exact ⟨rfl, by rintro ⟨⟩⟩)
        · exact .refl _
      | other name => exact .refl _
    simp only
    unfold ExecutionEngine.after
    split
    · exact hqueued
    · rename_i r hr
      rw [flush_status]
      exact pushEvent_status hr ▸ hqueued
  | orphan => exact orphan_status
  | acquireLease workerId ttlMs start =>
    refine after_status fun _ _ => ?_
    simp only
    split_ifs
    · exact .refl _
    · exact .refl _
    · exact .refl _
    · exact .inl flush_status
  | renewLease workerId options =>
    refine after_status fun _ _ => ?_
    split
    · exact .refl _
    · exact .inl flush_status
  | releaseLease workerId options =>
    refine after_status fun _ _ => ?_
    split
    · exact .refl _
    · exact .inl flush_status
  | pause => exact moveTo_status (by rintro ⟨⟩)
  | resume => exact moveTo_status (by rintro ⟨⟩)
  | steer params =>
    refine after_status fun _ _ => .inl (flush_status.trans ?_)
    split_ifs <;> rfl
  | toolCheckpoints => exact after_status fun _ _ => .refl _
  | getWorkspaceRevision => exact after_status fun _ _ => .refl _
  | survey =>
    change StatusMove _ (m.survey inp.owner).2.record.status
    unfold ExecutionEngine.survey
    split_ifs
    · exact .refl _
    · exact after_status fun _ _ => .refl _
  | orphanStranded =>
    change StatusMove _ (m.orphanStranded inp.owner inp.now).2.record.status
    unfold ExecutionEngine.orphanStranded
    split_ifs
    · exact orphan_status
    · exact .refl _

end Blocks

/-! Runs. -/

/-- What the checks of a completion read is as it was, and the lease that its caller claims has not
run out. -/
structure Undisturbed (check : CompletionCheck) (m : ExecutionEngine) (now : ℤ) : Prop where
  status : m.record.status = check.engine.record.status
  calls : m.record.toolCheckpoints = check.engine.record.toolCheckpoints
  facts : m.record.facts = check.engine.record.facts
  lease : m.lease = check.engine.lease
  unexpired : check.options.claims = true → m.lease.any (now < ·.expiresAt) = true

instance (check : CompletionCheck) (m : ExecutionEngine) (now : ℤ) :
    Decidable (Undisturbed check m now) :=
  decidable_of_iff (m.record.status = check.engine.record.status ∧
      m.record.toolCheckpoints = check.engine.record.toolCheckpoints ∧
      m.record.facts = check.engine.record.facts ∧ m.lease = check.engine.lease ∧
      (check.options.claims = true → m.lease.any (now < ·.expiresAt) = true))
    ⟨fun ⟨h₁, h₂, h₃, h₄, h₅⟩ => ⟨h₁, h₂, h₃, h₄, h₅⟩, fun ⟨h₁, h₂, h₃, h₄, h₅⟩ => ⟨h₁, h₂, h₃, h₄, h₅⟩⟩

/-- The clock that the lease of a completion is held by. -/
def CompletionCheck.clock (check : CompletionCheck) (now : ℤ) : ℤ := check.options.now.getD now

/-- Nothing came between the checks of a completion and its write. -/
def undisturbed (e : EngineEntry) : Bool :=
  match e.op, e.before.engine with
  | .block (.complete check), some m => Undisturbed check m (check.clock e.input.now)
  | _, _ => true

/-- The facts of the record, as they are when a completion is written. -/
structure Backed (check : CompletionCheck) (m : ExecutionEngine) (now : ℤ) : Prop where
  active : m.record.status ∉ terminalExecution
  resolved : ∀ c ∈ m.record.toolCheckpoints, c.state.unresolved = false
  eligible : Eligible m.record.facts
  held : check.options.claims = true → m.leaseRefusal check.options.toLeaseClaimant now = none

/-- What one step does to the status. -/
structure BackedStatus (e : EngineEntry) : Prop where
  completed : ∀ m m', e.before.engine = some m → e.after.engine = some m' →
    m.record.status ≠ .completed → m'.record.status = .completed →
    ∃ check, e.op = .block (.complete check) ∧ Backed check m (check.clock e.input.now)
  terminal : ∀ m m', e.before.engine = some m → e.after.engine = some m' →
    m.record.status ∈ terminalExecution → m'.record.status = m.record.status ∨
      m.record.status = .failed ∧ m'.record.status ∈ executionRetryTargets

variable {m : ExecutionEngine}

theorem leaseRefusal_of_assertLease {c : LeaseClaimant} {now : ℤ} {rejectIfTerminal : Bool}
    (h : m.assertLease c now rejectIfTerminal = .ok ()) (hclaims : c.claims = true) :
    m.leaseRefusal c (c.now.getD now) = none := by
  unfold ExecutionEngine.assertLease at h
  split at h
  · cases h
  · rw [if_pos hclaims] at h
    split at h
    · cases h
    · assumption

/-- A lease that is held stays so until it runs out. -/
theorem leaseRefusal_later {m m' : ExecutionEngine} {c : LeaseClaimant} {now later : ℤ}
    (h : m.leaseRefusal c now = none) (hsame : m'.lease = m.lease)
    (hunexpired : m'.lease.any (later < ·.expiresAt) = true) : m'.leaseRefusal c later = none := by
  unfold ExecutionEngine.leaseRefusal at h ⊢
  rw [hsame] at hunexpired ⊢
  cases hlease : m.lease with
  | none => simp [hlease] at h
  | some l =>
    simp only [hlease, Option.any_some, decide_eq_true_eq] at h hunexpired ⊢
    split_ifs at h with h₁ h₂ h₃ h₄ h₅
    rw [if_neg h₁, if_neg h₂, if_neg h₃, if_neg h₄, if_neg (not_le.mpr hunexpired)]

theorem completionRefusal_eq_none {targetRevision : Option ℕ}
    (h : m.completionRefusal targetRevision = none) :
    (∀ c ∈ m.record.toolCheckpoints, c.state.unresolved = false) ∧ Eligible m.record.facts := by
  unfold ExecutionEngine.completionRefusal at h
  by_cases hany : m.record.toolCheckpoints.any (·.state.unresolved) = true
  · rw [if_pos hany] at h
    cases h
  · rw [if_neg hany] at h
    refine ⟨by simpa using hany, ?_⟩
    split at h
    · cases h
    · by_cases heligible : (assessCompletionEvidence m.record.facts).eligible = true
      · exact eligible_of_assessment heligible
      · rw [if_neg heligible] at h
        cases h

theorem backed_of_undisturbed {check : CompletionCheck} {now : ℤ}
    (h : Undisturbed check m (check.clock now)) (hstatus : m.record.status ≠ .completed) :
    Backed check m (check.clock now) := by
  obtain ⟨hresolved, heligible⟩ := completionRefusal_eq_none check.passed
  refine ⟨fun hterminal => ?_, h.calls ▸ hresolved, h.facts ▸ heligible, fun hclaims => ?_⟩
  · rcases canTransition_terminal check.transition (h.status ▸ hterminal) with heq | ⟨-, hretry⟩
    · exact hstatus (h.status.trans heq.symm)
    · simp [executionRetryTargets] at hretry
  · exact leaseRefusal_later (leaseRefusal_of_assertLease check.lease hclaims) h.lease
      (h.unexpired hclaims)

/-- What a command other than the end of a completion does to the status. -/
theorem exec_status {host : EngineHost} {op : EngineOp} {inp : EngineInput} {res : op.Res}
    {w w' : ExecutionWorld} (hx : engineExec host op inp w = some (res, w'))
    (hop : ∀ check, op ≠ .block (.complete check)) {m m' : ExecutionEngine}
    (hup : w.engine = some m) (hup' : w'.engine = some m') :
    StatusMove m.record.status m'.record.status := by
  cases engineExec_step hx with
  | load _ hdown =>
    rw [hup] at hdown
    cases hdown
  | block b m₀ hup₀ =>
    rw [hup] at hup₀
    cases hup₀
    cases hup'
    exact block_status fun check heq => hop check (congrArg _ heq)
  | write m₀ hup₀ =>
    rw [hup] at hup₀
    cases hup₀
    unfold ExecutionWorld.write at hup'
    split at hup'
    · split at hup'
      · cases hup'
        exact .refl _
      · cases hup'
        exact .refl _
    · cases hup'
      exact .refl _
  | none =>
    rw [hup] at hup'
    cases hup'
    exact .refl _

/-- Each completion that nothing came between is backed, and terminal statuses are left only to be
tried again. -/
theorem completion_backed (host : EngineHost) (process : ℕ) (inJob : Bool)
    (acceptance : AcceptanceContract) {cfg : EngineConfig}
    (hr : Reach (engineSystem host) (createdWorld process inJob acceptance) cfg)
    (e : EngineEntry) (he : e ∈ cfg.hist.entries) (hok : undisturbed e = true) :
    BackedStatus e := by
  have hx : engineExec host e.op e.input e.before = some (e.res, e.after) := hr.executed he
  by_cases hop : ∃ check, e.op = .block (.complete check)
  · obtain ⟨i, c, op, inp, res, w, w'⟩ := e
    obtain ⟨check, heq⟩ := hop
    obtain rfl : op = .block (.complete check) := heq
    have hwritten : ∀ m m', w.engine = some m → w'.engine = some m' →
        m'.record.status = .completed := by
      intro m m' hup hup'
      simp only [engineExec, hup, Option.some.injEq, Prod.mk.injEq] at hx
      obtain ⟨-, rfl⟩ := hx
      cases hup'
      exact writeStatus_status .completed
    have hcheck : ∀ m, w.engine = some m → Undisturbed check m (check.clock inp.now) := by
      intro m hup
      simpa [undisturbed, hup] using hok
    refine ⟨fun m m' hup hup' hstatus _ => ⟨check, rfl, backed_of_undisturbed (hcheck m hup) hstatus⟩,
      fun m m' hup hup' hterminal => ?_⟩
    by_cases hstatus : m.record.status = .completed
    · exact .inl ((hwritten m m' hup hup').trans hstatus.symm)
    · exact absurd hterminal (backed_of_undisturbed (hcheck m hup) hstatus).active
  · have hmove : ∀ m m', e.before.engine = some m → e.after.engine = some m' →
        StatusMove m.record.status m'.record.status := fun m m' hup hup' =>
      exec_status hx (fun check heq => hop ⟨check, heq⟩) hup hup'
    refine ⟨fun m m' hup hup' hstatus hcompleted => ?_, fun m m' hup hup' hterminal =>
      (hmove m m' hup hup').terminal hterminal⟩
    rcases hmove m m' hup hup' with hsame | ⟨-, hne⟩
    · exact absurd (hsame ▸ hcompleted) hstatus
    · exact absurd hcompleted hne

/-! One run that meets the condition, and one that does not. -/

def isCompleted (w : ExecutionWorld) : Bool :=
  w.engine.any (·.record.status = .completed)

/-- The execution is cancelled while the completion waits at its fault hook, and completed then. -/
theorem cancelled_completed : ∃ cfg : EngineConfig,
    Reach (engineSystem plainEngineHost) (createdWorld 0 false noCriteria) cfg ∧
      ¬∀ e ∈ cfg.hist.entries, BackedStatus e := by
  have hrun : (schedule (engineSystem plainEngineHost) (engineCall 0 (.setStatus .running {}) 1 ++
      engineCall 1 (.setStatus .completed {}) 2 ++ engineCall 2 (.setStatus .cancelled {}) 1 ++
      [.run 1 {}]) (.start (createdWorld 0 false noCriteria))).any (fun cfg =>
        cfg.hist.entries.any fun e => e.before.engine.any (·.record.status = .cancelled) &&
          isCompleted e.after) = true := by
    decide
  obtain ⟨cfg, hr, hcheck⟩ := Reach.of_check hrun
  refine ⟨cfg, hr, fun hbacked => ?_⟩
  obtain ⟨e, he, hstatus⟩ := List.any_eq_true.mp hcheck
  rw [Bool.and_eq_true] at hstatus
  obtain ⟨m, hup, hcancelled⟩ := (Option.any_eq_true _ _).mp hstatus.1
  obtain ⟨m', hup', hcompleted⟩ := (Option.any_eq_true _ _).mp hstatus.2
  rw [decide_eq_true_eq] at hcancelled hcompleted
  rcases (hbacked e he).terminal m m' hup hup' (by simp [hcancelled, terminalExecution]) with h | h
  · rw [hcancelled, hcompleted] at h
    cases h
  · rw [hcancelled] at h
    cases h.1

/-- With a lease, evidence and an evaluation, and nothing in between. -/
theorem completion_backed_leased : ∃ cfg : EngineConfig,
    Reach (engineSystem plainEngineHost) (createdWorld 0 false ⟨[], [.test]⟩) cfg ∧
      isCompleted cfg.hist.shared = true ∧ ∀ e ∈ cfg.hist.entries, BackedStatus e := by
  have hrun : (schedule (engineSystem plainEngineHost) (engineCall 0 (.acquireLease "worker" none none) 1 ++
      engineCall 1 (.setStatus .running {}) 1 ++
      engineCall 2 (.recordEvidence ⟨.test, none, none, none, 0, none, {}⟩ {}) 3 ++
      engineCall 3 (.setEvaluation ⟨true, some 0⟩ {}) 1 ++
      engineCall 4 (.setStatus .completed { workerId := some "worker", leaseEpoch := some 1 }) 3)
      (.start (createdWorld 0 false ⟨[], [.test]⟩))).any (fun cfg =>
        isCompleted cfg.hist.shared && cfg.hist.entries.all undisturbed) = true := by
    decide +kernel
  obtain ⟨cfg, hr, hcheck⟩ := Reach.of_check hrun
  rw [Bool.and_eq_true, List.all_eq_true] at hcheck
  exact ⟨cfg, hr, hcheck.1, fun e he =>
    completion_backed plainEngineHost 0 false ⟨[], [.test]⟩ hr e he (hcheck.2 e he)⟩

end Wazir.Core
