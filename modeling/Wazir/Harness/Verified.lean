import Wazir.Async.Machine
import Wazir.Core.BackedCompletion
import Wazir.Harness.Verification

/-! When a dispatch that returns a verified result has a completed record. Protected paths are compared as
they are written, and what the engine throws at the recording is swallowed: changed files have to be
spelled as the protected paths are, and the engine has to accept each command. -/

namespace Wazir.Harness

open Wazir.Core Wazir.Core.EngineProg Async

/-- What a dispatch that returned a verified result promises. -/
structure VerifiedSound (request : VerificationRequest) (s : DispatchEnd) : Prop where
  status : s.returned = true → s.result.verified = true → s.result.status = .completed
  passed : s.returned = true → s.result.verified = true →
    ∃ outcome, s.outcome = some outcome ∧ outcome.verified = true
  paths : s.returned = true → s.result.verified = true → ∀ file ∈ s.result.filesChanged,
    ∀ p ∈ request.protectedPaths, ¬Inside p file
  recorded : s.returned = true → s.result.verified = true → s.world.isSome = true →
    ∃ r, s.record = some r ∧ r.status = .completed

/-- The engine takes the command: no write has failed, no fault is injected, a call that was recorded
before is the same, and statuses move as they may, to `completed` with everything proved. -/
def Takes (host : EngineHost) (m : ExecutionEngine) (inp : EngineInput) : EngineOp → Prop
  | .hook => inp.fault = none
  | .written ticket => ticket ≤ m.landed
  | .block (.checkStatus status options) => m.persistenceFailure = none ∧
      canTransitionExecution m.record.status status = true ∧
      (status = .completed → m.completionRefusal options.targetRevision = none)
  | .block (.beginResult call _) => m.persistenceFailure = none ∧
      ∀ prior, m.record.toolCalls.find? (·.id = call.id) = some prior →
        prior = call.withOutput host.sanitizeUntrustedOutput
  | .block _ => m.persistenceFailure = none
  | _ => True

/-- The command that the recording is about to run. -/
def DispatchEnd.nextOp (s : DispatchEnd) : Option EngineOp :=
  match s.phase with
  | .recording (.call (.engine op) _) => some op
  | _ => none

/-- A changed file in a protected path is seen as one, and the engine takes each command of the recording
of a verified result. -/
def CarefulEnd (host : EngineHost) (request : VerificationRequest) (s : DispatchEnd) :
    DispatchEndEvent → Prop
  | .verified _ => (∃ file ∈ s.result.filesChanged, ∃ p ∈ request.protectedPaths, Inside p file) →
      ∃ file ∈ s.result.filesChanged, hitsProtected request.protectedPaths file = true
  | .next inp => s.result.verified = true → ∀ op, s.nextOp = some op →
      ∀ m, s.world.bind (·.engine) = some m → Takes host m inp op
  | .others _ _ => True

/-! The verification. -/

section Verification

variable {v : Verifier} {request : VerificationRequest} {result : FinalResult}

theorem verified_status
    (h : (v.runIndependentVerification request result).verified = true) :
    result.status = .completed := by
  by_contra hstatus
  rw [Verifier.runIndependentVerification, if_pos hstatus] at h
  cases h

/-- No changed file is written as a protected path is. -/
theorem verified_unhit
    (h : (v.runIndependentVerification request result).verified = true) :
    ∀ file ∈ result.filesChanged, hitsProtected request.protectedPaths file = false := by
  rw [Verifier.runIndependentVerification, if_neg (not_not.mpr (verified_status h))] at h
  cases hfind : result.filesChanged.find? (hitsProtected request.protectedPaths) with
  | some changed =>
    rw [hfind] at h
    cases h
  | none =>
    intro file hfile
    simpa using List.find?_eq_none.mp hfind file hfile

theorem settled_verified {outcome : HarnessVerificationOutcome}
    (h : (result.settled outcome).verified = true) :
    outcome.verified = true ∧ (result.settled outcome).status = .completed := by
  unfold FinalResult.settled at h ⊢
  simp only at h ⊢
  split_ifs at h ⊢ with hstatus houtcome
  exact ⟨houtcome, hstatus⟩

theorem settled_filesChanged (outcome : HarnessVerificationOutcome) :
    (result.settled outcome).filesChanged = result.filesChanged := by
  unfold FinalResult.settled
  simp only
  split_ifs <;> rfl

end Verification

/-! The recording. -/

/-- The results of commands that the engine takes. -/
def fineResult : (op : EngineOp) → op.Res → Prop
  | .hook, r => r = .ok ()
  | .written _, r => r = .ok ()
  | .block (.checkStatus status options), r => options.claims = false →
      if status = .completed then ∃ check, r = .ok (.passed check) else ∃ ticket, r = .ok (.written ticket)
  | .block (.beginResult _ claimant), r => claimant.claims = false → ∃ a, r = .ok a
  | .block (.assertLive claimant), r => claimant.claims = false → ∃ a, r = .ok a
  | .block (.recordCheck _ claimant), r => claimant.claims = false → ∃ a, r = .ok a
  | .block (.setEvaluation _ claimant), r => claimant.claims = false → ∃ a, r = .ok a
  | .block (.complete _), r => ∃ a, r = .ok a
  | .block (.pushResult _ _ _), r => ∃ a, r = .ok a
  | .block (.changeFiles _ _), r => ∃ a, r = .ok a
  | .block .flush, r => ∃ a, r = .ok a
  | .block (.recordEvidence _ _), r => ∃ a, r = .ok a
  | .block .getWorkspaceRevision, r => ∃ a, r = .ok a
  | _, _ => True

section Results

variable {host : EngineHost} {m : ExecutionEngine} {inp : EngineInput}

theorem flush_ok (h : m.persistenceFailure = none) : ∃ ticket, m.flush.1 = .ok ticket := by
  unfold ExecutionEngine.flush
  rw [h]
  exact ⟨_, rfl⟩

theorem assertLease_ok (h : m.persistenceFailure = none) {claimant : LeaseClaimant}
    (hclaims : claimant.claims = false) (now : ℤ) (rejectIfTerminal : Bool) :
    m.assertLease claimant now rejectIfTerminal = .ok () := by
  have hrequire : m.require = .ok () := by
    rw [ExecutionEngine.require, h]
  rw [ExecutionEngine.assertLease, hrequire]
  simp only [hclaims, Bool.false_eq_true, if_false]

theorem after_ok {α β : Type} {check : Except EngineError α} {rest : α → Ran β} {a : α}
    (hcheck : check = .ok a) (h : ∃ b, (rest a).1 = .ok b) : ∃ b, (m.after check rest).1 = .ok b := by
  rw [hcheck]
  exact h

theorem map_ok {α β : Type} {r : Except EngineError α} (f : α → β) (h : ∃ a, r = .ok a) :
    ∃ b, r.map f = .ok b := by
  obtain ⟨a, rfl⟩ := h
  exact ⟨f a, rfl⟩

theorem writeStatus_ok (h : m.persistenceFailure = none) (status : ExecutionStatus) (now : ℤ) :
    ∃ ticket, (m.writeStatus status now).1 = .ok ticket := by
  unfold ExecutionEngine.writeStatus
  split_ifs
  · exact flush_ok h
  · exact flush_ok h

theorem checkStatus_fine (h : m.persistenceFailure = none) {status : ExecutionStatus}
    {options : StatusOptions} (htransition : canTransitionExecution m.record.status status = true)
    (hproved : status = .completed → m.completionRefusal options.targetRevision = none)
    (hclaims : options.claims = false) (now : ℤ) :
    if status = .completed then ∃ check, (m.checkStatus status options now).1 = .ok (.passed check)
    else ∃ ticket, (m.checkStatus status options now).1 = .ok (.written ticket) := by
  have hlease := assertLease_ok h hclaims now false
  have hrefused : ∀ e, m.assertLease options.toLeaseClaimant now false ≠ .error e := by
    rw [hlease]
    exact fun e => nofun
  by_cases hstatus : status = .completed
  · rw [if_pos hstatus]
    unfold ExecutionEngine.checkStatus
    split
    · exact absurd ‹_› (hrefused _)
    · rw [dif_pos htransition, dif_pos hstatus]
      split
      · rename_i e he
        rw [hproved hstatus] at he
        cases he
      · exact ⟨_, rfl⟩
  · rw [if_neg hstatus]
    unfold ExecutionEngine.checkStatus
    split
    · exact absurd ‹_› (hrefused _)
    · rw [dif_pos htransition, dif_neg hstatus]
      obtain ⟨ticket, hticket⟩ := writeStatus_ok h status now
      exact ⟨ticket, by simp only [hticket, Except.map]⟩

theorem beginResult_fine (h : m.persistenceFailure = none) {call : ToolCallRecord}
    {claimant : LeaseClaimant} {sanitize : String → String}
    (hsame : ∀ prior, m.record.toolCalls.find? (·.id = call.id) = some prior →
      prior = call.withOutput sanitize) (hclaims : claimant.claims = false) (now : ℤ) :
    ∃ a, (m.beginResult sanitize call claimant now).1 = .ok a := by
  refine after_ok (assertLease_ok h hclaims now true) ?_
  cases hprior : m.record.toolCalls.find? (·.id = call.id) with
  | none => exact ⟨_, rfl⟩
  | some prior =>
    simp only [if_pos (hsame prior hprior)]
    exact map_ok _ (flush_ok h)

/-- What the engine takes it answers. -/
theorem takes_fine {op : EngineOp} {w w' : ExecutionWorld} {r : op.Res}
    (hx : engineExec host op inp w = some (r, w'))
    (htakes : ∀ m, w.engine = some m → Takes host m inp op) : fineResult op r := by
  cases hup : w.engine with
  | none =>
    cases op with
    | load => trivial
    | _ => simp only [engineExec, hup, reduceCtorEq] at hx
  | some m =>
    have htake := htakes m hup
    cases op with
    | hook =>
      simp only [engineExec, hup, show inp.fault = none from htake, Option.some.injEq,
        Prod.mk.injEq] at hx
      exact hx.1.symm
    | written ticket =>
      have hle : ticket ≤ m.landed := htake
      simp only [engineExec, hup, ExecutionWorld.ticketState, if_pos hle, Option.map_some,
        Option.some.injEq, Prod.mk.injEq] at hx
      exact hx.1.symm
    | block b =>
      simp only [engineExec, hup, Option.some.injEq, Prod.mk.injEq] at hx
      rw [← hx.1]
      cases b with
      | checkStatus status options =>
        exact fun hclaims => checkStatus_fine htake.1 htake.2.1 htake.2.2 hclaims inp.now
      | beginResult call claimant =>
        exact fun hclaims => beginResult_fine htake.1 htake.2 hclaims inp.now
      | assertLive claimant =>
        exact fun hclaims => after_ok (assertLease_ok htake hclaims inp.now true) ⟨_, rfl⟩
      | recordCheck check claimant =>
        exact fun hclaims => after_ok (assertLease_ok htake hclaims inp.now true) (flush_ok htake)
      | setEvaluation e claimant =>
        refine fun hclaims => after_ok (assertLease_ok htake hclaims inp.now true) ?_
        simp only
        split_ifs
        · exact ⟨_, rfl⟩
        · exact map_ok _ (flush_ok htake)
      | complete check => exact writeStatus_ok htake _ _
      | pushResult => exact flush_ok htake
      | changeFiles files mutated =>
        change ∃ a, (m.changeFiles files mutated inp.registers inp.now).1 = .ok a
        unfold ExecutionEngine.changeFiles
        simp only
        split_ifs
        · exact ⟨_, rfl⟩
        · exact map_ok _ (flush_ok htake)
      | flush => exact flush_ok htake
      | recordEvidence => exact flush_ok htake
      | getWorkspaceRevision =>
        exact after_ok (by rw [ExecutionEngine.require, show m.persistenceFailure = none from htake])
          ⟨_, rfl⟩
      | _ => trivial
    | _ => trivial

end Results

/-! The way through the recording. -/

def fineRecording : (op : RecordingOp) → op.Res → Prop
  | .engine op, r => fineResult op r
  | .record, _ => True

/-- The command that writes the status `completed`. -/
def completes : EngineOp → Prop
  | .block (.complete _) => True
  | _ => False

def recordsCompletion : RecordingOp → Prop
  | .engine op => completes op
  | .record => False

section Ways

variable {α : Type} {Q : α → Prop}

theorem ways_engine {p : EngineProg α} (h : p.Ways fineResult Q) :
    (RecordingProg.engine p).Ways fineRecording Q :=
  Prog.Ways.lift h fun _ _ hr => hr

theorem ways_block {b : EngineBlock} {Q : b.Out → Prop}
    (h : ∀ r, fineResult (.block b) r → ∃ a, r = .ok a ∧ Q a) :
    (block b).Ways fineResult Q := by
  intro r hr
  obtain ⟨a, rfl, ha⟩ := h r hr
  exact ha

/-- A block that answers. -/
theorem ways_ok {b : EngineBlock} {Q : b.Out → Prop}
    (h : ∀ r, fineResult (.block b) r → ∃ a, r = .ok a) (hQ : ∀ a, Q a) :
    (block b).Ways fineResult Q :=
  ways_block fun r hr => (h r hr).imp fun a ha => ⟨ha, hQ a⟩

theorem ways_written (ticket : ℕ) : (written ticket).Ways fineResult fun _ => True := by
  rintro r rfl
  trivial

theorem ways_hook {Q : Unit → Prop} (hQ : Q ()) : hook.Ways fineResult Q := by
  rintro r rfl
  exact hQ

theorem ways_registered (ticket : Option ℕ) : (registered ticket).Ways fineResult fun _ => True := by
  cases ticket with
  | some ticket => exact ways_written ticket
  | none => exact fun _ _ => Prog.Ways.bind (ways_ok (fun _ hr => hr) ways_written)

theorem ways_setStatus {status : ExecutionStatus} (h : status ≠ .completed) :
    (setStatus status {}).Ways fineResult fun _ => True := by
  refine Prog.Ways.bind (ways_block fun r hr => ?_)
  have hfine := hr rfl
  rw [if_neg h] at hfine
  obtain ⟨ticket, rfl⟩ := hfine
  exact ⟨_, rfl, ways_written ticket⟩

theorem passes_setStatus (rev : ℕ) :
    (setStatus .completed { targetRevision := some rev }).Passes fineResult completes False := by
  refine Prog.Passes.bind (ways_block fun r hr => ?_)
  have hfine := hr rfl
  rw [if_pos rfl] at hfine
  obtain ⟨check, rfl⟩ := hfine
  refine ⟨_, rfl, ?_⟩
  rintro _ rfl r ⟨ticket, rfl⟩ _ rfl
  exact .inl (.inr trivial)

theorem ways_recordToolCall (call : ToolCallRecord) :
    (recordToolCall call {}).Ways fineResult fun _ => True := by
  refine Prog.Ways.bind (ways_ok (fun _ hr => hr rfl) fun step => ?_)
  cases step with
  | repeated ticket => exact ways_written ticket
  | recorded callId stepId =>
    exact Prog.Ways.bind (ways_hook (Prog.Ways.bind (ways_ok (fun _ hr => hr) ways_written)))

theorem ways_recordFilesChanged (files : List String) :
    (recordFilesChanged files false {}).Ways fineResult fun _ => True := by
  unfold recordFilesChanged
  split_ifs
  · trivial
  · exact Prog.Ways.bind (ways_ok (fun _ hr => hr rfl) fun _ => Prog.Ways.bind (ways_hook
      (Prog.Ways.bind (ways_ok (fun _ hr => hr) ways_registered))))

theorem ways_recordEvidence (e : EvidenceInput) :
    (recordEvidence e {}).Ways fineResult fun _ => True :=
  Prog.Ways.bind (ways_ok (fun _ hr => hr rfl) fun _ => Prog.Ways.bind (ways_hook
    (Prog.Ways.bind (ways_ok (fun _ hr => hr) ways_written))))

theorem ways_noted : RecordingProg.noted.Ways fineResult fun _ => True :=
  Prog.Ways.bind (ways_ok (fun _ hr => hr rfl) fun _ =>
    Prog.Ways.bind (ways_ok (fun _ hr => hr) ways_written))

theorem ways_engineIf (c : Prop) [Decidable c] {p : EngineProg Unit}
    (h : p.Ways fineResult fun _ => True) :
    (RecordingProg.engineIf c p).Ways fineRecording fun _ => True := by
  unfold RecordingProg.engineIf
  split_ifs
  · exact ways_engine h
  · trivial

theorem ways_forAll {record : α → EngineProg Unit}
    (h : ∀ a, (record a).Ways fineResult fun _ => True) (items : List α) :
    (RecordingProg.forAll record items).Ways fineRecording fun _ => True := by
  induction items with
  | nil => trivial
  | cons a rest ih => exact Prog.Ways.bind ((ways_engine (h a)).mono fun _ _ => ih)

theorem ways_recordFacts (request : VerificationRequest) (result : FinalResult)
    (outcome : HarnessVerificationOutcome) (rev : ℕ) :
    (RecordingProg.recordFacts request result outcome rev).Ways fineRecording fun _ => True := by
  have hcheck : ∀ check, (RecordingProg.recordCheckAt rev check).Ways fineResult fun _ => True :=
    fun check => Prog.Ways.bind (ways_ok (fun _ hr => hr rfl) ways_written)
  refine Prog.Ways.bind ((ways_forAll hcheck _).mono fun _ _ => ?_)
  refine Prog.Ways.bind ((ways_forAll (fun _ => ways_recordEvidence _) _).mono fun _ _ => ?_)
  split_ifs
  · exact ways_forAll (fun _ => ways_recordEvidence _) _
  · trivial

theorem ways_recordOutput (result : FinalResult) :
    (RecordingProg.recordOutput result).Ways fineRecording fun _ => True := by
  refine Prog.Ways.bind ((ways_engineIf _ ways_noted).mono fun _ _ => ?_)
  refine Prog.Ways.bind ((ways_engineIf _ ways_noted).mono fun _ _ => ?_)
  exact ways_forAll (fun _ => ways_noted) _

/-- While the engine takes everything, the recording of a verified result writes `completed`. -/
theorem passes_recordOutcome (request : VerificationRequest) {result : FinalResult}
    (outcome : HarnessVerificationOutcome) (hstatus : result.status = .completed)
    (hverified : result.verified = true) :
    (RecordingProg.recordOutcomeToExecutionEngine request result outcome).Passes fineRecording
      recordsCompletion False := by
  have hstart : (setStatus .running {}).Ways fineResult fun _ => True := ways_setStatus nofun
  refine Prog.Passes.bind fun record _ => ?_
  refine Prog.Passes.bind ((ways_engineIf _ hstart).mono fun _ _ => ?_)
  refine Prog.Passes.bind ((ways_forAll ways_recordToolCall _).mono fun _ _ => ?_)
  refine Prog.Passes.bind fun record _ => ?_
  refine Prog.Passes.bind ((ways_engineIf _ (ways_recordFilesChanged _)).mono fun _ _ => ?_)
  refine Prog.Passes.bind (ways_engine (ways_ok (fun _ hr => hr) fun rev => ?_))
  refine Prog.Passes.bind ((ways_recordFacts request result outcome rev).mono fun _ _ => ?_)
  refine Prog.Passes.bind ((ways_recordOutput result).mono fun _ _ => ?_)
  refine Prog.Passes.bind (ways_engine (Prog.Ways.bind (ways_ok (fun _ hr => hr rfl)
    fun ticket => (ways_registered ticket).mono fun _ _ => ?_)))
  have hlast : RecordingProg.recordStatus result rev =
      setStatus .completed { targetRevision := some rev } := by
    rw [RecordingProg.recordStatus, if_neg (by rw [hstatus]; exact nofun), if_pos ⟨hstatus, hverified⟩]
  rw [hlast]
  exact Prog.Passes.lift (passes_setStatus rev) (fun _ _ hr => hr) fun _ h => h

end Ways

/-! The run. -/

def Completed (w : ExecutionWorld) : Prop :=
  ∃ m, w.engine = some m ∧ m.record.status = .completed

section Runs

variable {host : EngineHost} {request : VerificationRequest} {op : EngineOp} {inp : EngineInput}
  {r : op.Res} {w w' : ExecutionWorld} {s s' : DispatchEnd}

/-- A command leaves the engine up. -/
theorem exec_up (hx : engineExec host op inp w = some (r, w')) {m : ExecutionEngine}
    (hup : w.engine = some m) : ∃ m', w'.engine = some m' := by
  cases engineExec_step hx with
  | load _ hdown => exact nomatch hdown.symm.trans hup
  | block b m₀ hup₀ => exact ⟨_, rfl⟩
  | write m₀ hup₀ =>
    unfold ExecutionWorld.write
    split
    · split
      · exact ⟨_, rfl⟩
      · exact ⟨_, rfl⟩
    · exact ⟨_, rfl⟩
  | none => exact ⟨m, hup⟩

/-- A completed execution stays so. -/
theorem completed_stays (hx : engineExec host op inp w = some (r, w')) (h : Completed w) :
    Completed w' := by
  obtain ⟨m, hup, hstatus⟩ := h
  obtain ⟨m', hup'⟩ := exec_up hx hup
  refine ⟨m', hup', ?_⟩
  by_cases hop : ∃ check, op = .block (.complete check)
  · obtain ⟨check, rfl⟩ := hop
    simp only [engineExec, hup, Option.some.injEq, Prod.mk.injEq] at hx
    obtain ⟨-, rfl⟩ := hx
    obtain rfl := Option.some.inj hup'
    exact writeStatus_status _
  · have hmove := exec_status hx (fun check heq => hop ⟨check, heq⟩) hup hup'
    rw [hstatus] at hmove
    rcases hmove.terminal (by decide) with hsame | ⟨hfailed, -⟩
    · exact hsame
    · cases hfailed

theorem completes_completed (hx : engineExec host op inp w = some (r, w')) (h : completes op) :
    Completed w' := by
  cases op with
  | block b =>
    cases b with
    | complete check =>
      cases hup : w.engine with
      | none => simp only [engineExec, hup, reduceCtorEq] at hx
      | some m =>
        simp only [engineExec, hup, Option.some.injEq, Prod.mk.injEq] at hx
        obtain ⟨-, rfl⟩ := hx
        exact ⟨_, rfl, writeStatus_status _⟩
    | _ => exact h.elim
  | _ => exact h.elim

/-- What holds while the recording goes on. -/
structure Promised (request : VerificationRequest) (s : DispatchEnd) (rest : RecordingProg Unit) :
    Prop where
  status : s.result.status = .completed
  passed : ∃ outcome, s.outcome = some outcome ∧ outcome.verified = true
  paths : ∀ file ∈ s.result.filesChanged, ∀ p ∈ request.protectedPaths, ¬Inside p file
  recorded : ∀ w, s.world = some w → ∃ behind : Prop,
    rest.Passes fineRecording recordsCompletion behind ∧ (behind → Completed w)

def EndInvariant (request : VerificationRequest) (s : DispatchEnd) : Prop :=
  match s.phase with
  | .verifying => s.result.verified = false
  | .recording rest => s.result.verified = true → Promised request s rest

theorem EndInvariant.sound (h : EndInvariant request s) : VerifiedSound request s := by
  have hpromised : s.returned = true → s.result.verified = true →
      ∃ rest, (rest = .ret () ∨ ∃ e, rest = .raise e) ∧ Promised request s rest := by
    intro hreturned hverified
    unfold EndInvariant at h
    unfold DispatchEnd.returned at hreturned
    split at hreturned
    · rename_i hphase
      rw [hphase] at h
      exact ⟨_, .inl rfl, h hverified⟩
    · rename_i e hphase
      rw [hphase] at h
      exact ⟨_, .inr ⟨e, rfl⟩, h hverified⟩
    · cases hreturned
  refine ⟨fun hr hv => ?_, fun hr hv => ?_, fun hr hv => ?_, fun hr hv hworld => ?_⟩
  · obtain ⟨_, _, hp⟩ := hpromised hr hv
    exact hp.status
  · obtain ⟨_, _, hp⟩ := hpromised hr hv
    exact hp.passed
  · obtain ⟨_, _, hp⟩ := hpromised hr hv
    exact hp.paths
  · obtain ⟨rest, hrest, hp⟩ := hpromised hr hv
    obtain ⟨w, hw⟩ := Option.isSome_iff_exists.mp hworld
    obtain ⟨behind, hpasses, hcompleted⟩ := hp.recorded w hw
    have hbehind : behind := by
      rcases hrest with rfl | ⟨e, rfl⟩
      · exact hpasses
      · exact hpasses.elim
    obtain ⟨m, hup, hstatus⟩ := hcompleted hbehind
    exact ⟨m.record, by simp [DispatchEnd.record, hw, hup], hstatus⟩

theorem EndInvariant.verified (v : Verifier) (h : s.phase = .verifying)
    (hcareful : (∃ file ∈ s.result.filesChanged, ∃ p ∈ request.protectedPaths, Inside p file) →
      ∃ file ∈ s.result.filesChanged, hitsProtected request.protectedPaths file = true)
    (hs : s.step host request (.verified v) = some s') : EndInvariant request s' := by
  simp only [DispatchEnd.step, h, Option.some.injEq] at hs
  rw [← hs]
  intro hverified
  obtain ⟨hpassed, hstatus⟩ := settled_verified hverified
  refine ⟨hstatus, ⟨_, rfl, hpassed⟩, fun file hfile p hp hinside => ?_, fun w hw => ?_⟩
  · simp only [settled_filesChanged] at hfile
    obtain ⟨hit, hmem, hhit⟩ := hcareful ⟨file, hfile, p, hp, hinside⟩
    rw [verified_unhit hpassed hit hmem] at hhit
    cases hhit
  · refine ⟨False, ?_, False.elim⟩
    have hworld : s.world = some w := hw
    simp only [hworld, Option.isNone_some, Bool.false_eq_true, if_false]
    exact passes_recordOutcome request _ hstatus hverified

theorem EndInvariant.next (h : EndInvariant request s) {inp : EngineInput}
    (hcareful : s.result.verified = true → ∀ op, s.nextOp = some op →
      ∀ m, s.world.bind (·.engine) = some m → Takes host m inp op)
    (hs : s.step host request (.next inp) = some s') : EndInvariant request s' := by
  obtain ⟨phase, result, outcome, world⟩ := s
  cases phase with
  | verifying => simp only [DispatchEnd.step, reduceCtorEq] at hs
  | recording rest =>
    cases rest with
    | ret a => simp only [DispatchEnd.step, reduceCtorEq] at hs
    | raise e => simp only [DispatchEnd.step, reduceCtorEq] at hs
    | call op next =>
      cases world with
      | none => cases op <;> simp only [DispatchEnd.step, reduceCtorEq] at hs
      | some w =>
        cases op with
        | record =>
          simp only [DispatchEnd.step, Option.map_eq_some_iff] at hs
          obtain ⟨r, -, rfl⟩ := hs
          intro hverified
          have hp := h hverified
          refine ⟨hp.status, hp.passed, hp.paths, fun w' hw' => ?_⟩
          obtain ⟨behind, hpasses, hcompleted⟩ := hp.recorded w' hw'
          exact ⟨_, hpasses r trivial, fun hb => hcompleted (hb.resolve_right id)⟩
        | engine op =>
          simp only [DispatchEnd.step, Option.map_eq_some_iff] at hs
          obtain ⟨⟨r, w'⟩, hx, rfl⟩ := hs
          intro hverified
          have hp := h hverified
          refine ⟨hp.status, hp.passed, hp.paths, fun w'' hw'' => ?_⟩
          obtain rfl := Option.some.inj hw''
          obtain ⟨behind, hpasses, hcompleted⟩ := hp.recorded w rfl
          have hfine : fineResult op r := takes_fine hx fun m hup => hcareful hverified op rfl m hup
          refine ⟨_, hpasses r hfine, fun hb => ?_⟩
          rcases hb with hb | hb
          · exact completed_stays hx (hcompleted hb)
          · exact completes_completed hx hb

theorem EndInvariant.others (h : EndInvariant request s) {op : EngineOp} {inp : EngineInput}
    (hs : s.step host request (.others op inp) = some s') : EndInvariant request s' := by
  obtain ⟨phase, result, outcome, world⟩ := s
  cases world with
  | none => cases phase <;> simp only [DispatchEnd.step, reduceCtorEq] at hs
  | some w =>
    simp only [DispatchEnd.step, Option.map_eq_some_iff] at hs
    obtain ⟨⟨r, w'⟩, hx, rfl⟩ := hs
    cases phase with
    | verifying => exact h
    | recording rest =>
      intro hverified
      have hp := h hverified
      refine ⟨hp.status, hp.passed, hp.paths, fun w'' hw'' => ?_⟩
      obtain rfl := Option.some.inj hw''
      obtain ⟨behind, hpasses, hcompleted⟩ := hp.recorded w rfl
      exact ⟨behind, hpasses, fun hb => completed_stays hx (hcompleted hb)⟩

/-- A dispatch that returns a verified result verified it, changed nothing protected and completed its
record, when changed files are spelled as protected paths are and the engine takes the recording. -/
theorem verified_sound (host : EngineHost) (request : VerificationRequest) (result : FinalResult)
    (world : Option ExecutionWorld)
    (h : Reached (DispatchEnd.step host request) (CarefulEnd host request)
      (DispatchEnd.attempted result world) s) : VerifiedSound request s := by
  have hstart : EndInvariant request (DispatchEnd.attempted result world) := rfl
  refine EndInvariant.sound (h.invariant hstart fun s s' e ih hcareful hs => ?_)
  cases e with
  | verified v =>
    cases hphase : s.phase with
    | verifying => exact EndInvariant.verified v hphase hcareful hs
    | recording rest => simp only [DispatchEnd.step, hphase, reduceCtorEq] at hs
  | next inp => exact ih.next hcareful hs
  | others op inp => exact ih.others hs

end Runs

/-! Runs that the condition holds of, and runs that it does not hold of. -/

instance (host : EngineHost) (m : ExecutionEngine) (inp : EngineInput) :
    (op : EngineOp) → Decidable (Takes host m inp op)
  | .hook => inferInstanceAs (Decidable (inp.fault = none))
  | .written ticket => inferInstanceAs (Decidable (ticket ≤ m.landed))
  | .load _ | .register | .inspect _ | .write => inferInstanceAs (Decidable True)
  | .block b =>
    match b with
    | .checkStatus status options => inferInstanceAs (Decidable (m.persistenceFailure = none ∧
        canTransitionExecution m.record.status status = true ∧
        (status = .completed → m.completionRefusal options.targetRevision = none)))
    | .beginResult call _ => inferInstanceAs (Decidable (m.persistenceFailure = none ∧
        ∀ prior ∈ m.record.toolCalls.find? (·.id = call.id),
          prior = call.withOutput host.sanitizeUntrustedOutput))
    | .recover _ | .complete _ | .pushResult _ _ _ | .beginStart _ | .dispatch _ _ _ _
    | .reconcile _ _ _ | .assertLive _ | .changeFiles _ _ | .flush | .recordEvidence _ _
    | .recordCheck _ _ | .setEvaluation _ _ | .recordEvent _ _ _ _ | .orphan | .acquireLease _ _ _
    | .renewLease _ _ | .releaseLease _ _ | .pause | .resume | .steer _ | .toolCheckpoints
    | .getWorkspaceRevision | .survey | .orphanStranded =>
      inferInstanceAs (Decidable (m.persistenceFailure = none))

instance (host : EngineHost) (request : VerificationRequest) (s : DispatchEnd) :
    (e : DispatchEndEvent) → Decidable (CarefulEnd host request s e)
  | .verified _ => inferInstanceAs (Decidable (_ → _))
  | .next inp => inferInstanceAs (Decidable (s.result.verified = true → ∀ op ∈ s.nextOp,
      ∀ m ∈ s.world.bind (·.engine), Takes host m inp op))
  | .others _ _ => inferInstanceAs (Decidable True)

def testedRequest : VerificationRequest where
  requiredChecks := ["test"]
  protectedPaths := ["tests/"]
  mutationRequired := true
  expectedArtifacts := []

def changedResult (files : List String) : FinalResult where
  status := .completed
  verified := false
  terminationReason := none
  errorKind := none
  failureClassification := none
  filesChanged := files
  artifacts := []
  toolCalls := []
  checks := []
  usage := false
  output := ""
  errors := []

/-- A callback that is content, with evidence of one oracle. -/
def calledBack (oracle : EvidenceType) : Verifier where
  verifyExecutionCallback := some
    { verified := true
      evidence := some [⟨oracle, none, none, some "run", 0, some .pass, {}⟩]
      reasons := [] }
  verificationEngine := none

/-- A dispatch whose record requires a test. -/
def testedEnd : DispatchEnd :=
  .attempted (changedResult ["src/login.ts"]) (some (createdWorld 0 false ⟨[], [.test]⟩))

/-- Each command of the recording, and a turn of the engine's writes after it. -/
def recordedRun (oracle : EvidenceType) (commands : ℕ) : List DispatchEndEvent :=
  .verified (calledBack oracle) ::
    (List.replicate commands [DispatchEndEvent.next {}, .others .write {}]).flatten

theorem verified_sound_tested : ∃ s, s.returned = true ∧ s.result.verified = true ∧
    s.record.any (·.status = .completed) = true ∧ VerifiedSound testedRequest s := by
  have hrun : (Reached.run (DispatchEnd.step plainEngineHost testedRequest) testedEnd
      (recordedRun .test 19)).any (fun s => s.returned && s.result.verified &&
        s.record.any (·.status = .completed)) = true := by
    decide +kernel
  obtain ⟨s, hs, hend⟩ := Option.any_eq_true _ _ |>.mp hrun
  rw [Bool.and_eq_true, Bool.and_eq_true] at hend
  refine ⟨s, hend.1.1, hend.1.2, hend.2, verified_sound plainEngineHost testedRequest
    (changedResult ["src/login.ts"]) (some (createdWorld 0 false ⟨[], [.test]⟩)) ?_⟩
  exact Reached.of_run (fun s e => decide (CarefulEnd plainEngineHost testedRequest s e))
    (fun _ _ => of_decide_eq_true) (recordedRun .test 19) (by decide +kernel) hs .init

/-- A file in a protected directory, and a record that its gate keeps from `completed`: both dispatches
return verified results. -/
theorem verified_unsound :
    (∃ s, Reached (DispatchEnd.step plainEngineHost testedRequest) (fun _ _ => True)
        (.attempted (changedResult ["tests/login.test.ts"]) none) s ∧
      s.returned = true ∧ s.result.verified = true ∧
      ∃ file ∈ s.result.filesChanged, ∃ p ∈ testedRequest.protectedPaths, Inside p file) ∧
    ∃ s, Reached (DispatchEnd.step plainEngineHost testedRequest) (fun _ _ => True) testedEnd s ∧
      s.returned = true ∧ s.result.verified = true ∧
      ∃ r, s.record = some r ∧ r.status = .running := by
  have hprotected : (Reached.run (DispatchEnd.step plainEngineHost testedRequest)
      (.attempted (changedResult ["tests/login.test.ts"]) none) [.verified (calledBack .test)]).any
        (fun s => s.returned && s.result.verified && decide (∃ file ∈ s.result.filesChanged,
          ∃ p ∈ testedRequest.protectedPaths, Inside p file)) = true := by
    decide
  have hrunning : (Reached.run (DispatchEnd.step plainEngineHost testedRequest) testedEnd
      (recordedRun .build 17)).any (fun s => s.returned && s.result.verified &&
        s.record.any (·.status = .running)) = true := by
    decide
  obtain ⟨s, hs, hend⟩ := Option.any_eq_true _ _ |>.mp hprotected
  obtain ⟨t, ht, hstuck⟩ := Option.any_eq_true _ _ |>.mp hrunning
  rw [Bool.and_eq_true, Bool.and_eq_true] at hend hstuck
  obtain ⟨r, hr, hstatus⟩ := Option.any_eq_true _ _ |>.mp hstuck.2
  exact ⟨⟨s, Reached.of_run (fun _ _ => true) (fun _ _ _ => trivial) _ (by decide) hs .init,
      hend.1.1, hend.1.2, of_decide_eq_true hend.2⟩,
    t, Reached.of_run (fun _ _ => true) (fun _ _ _ => trivial) _ (by decide) ht .init,
      hstuck.1.1, hstuck.1.2, r, hr, of_decide_eq_true hstatus⟩

end Wazir.Harness
