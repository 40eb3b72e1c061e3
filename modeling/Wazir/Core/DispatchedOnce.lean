import Wazir.Core.OneOutcome

/-! A call id is dispatched once, restarts included: what a caller learned of is in the store, every
later engine starts from there, and a dispatch looks at the log it is added to. -/

namespace Wazir.Core

open Relation Wazir.Async

/-! The log only grows, in memory and in the store. -/

/-- Rules that allow everything. -/
def anyRules : StepRules := ⟨fun _ _ => True, fun _ _ => True⟩

theorem anyRules_allow (m : ExecutionEngine) (now : ℤ) (b : EngineBlock) : anyRules.Allow m now b :=
  ⟨fun _ _ _ _ _ => trivial, fun _ _ _ _ _ _ => trivial, fun _ _ _ _ => trivial,
    fun _ _ _ _ => trivial⟩

theorem RecordStep.grows {rules : StepRules} {r r' : ExecutionRecord} (h : RecordStep rules r r') :
    r.events <+: r'.events := by
  cases h with
  | framed _ events => rw [events]
  | quiet => exact List.prefix_append _ _
  | started => exact List.prefix_append _ _
  | settled => exact List.prefix_append _ _
  | advanced _ new events =>
    rw [events]
    exact List.prefix_append _ _
  | evidence => exact List.prefix_rfl
  | cleared => exact List.prefix_rfl
  | evaluated => exact List.prefix_rfl

theorem Steps.grows {rules : StepRules} {r r' : ExecutionRecord} (h : Steps rules r r') :
    r.events <+: r'.events := by
  induction h with
  | refl => exact List.prefix_rfl
  | tail _ hs ih => exact ih.trans hs.grows

/-- The records there are, from the stored one to the one in memory. -/
def ExecutionWorld.records (w : ExecutionWorld) : List ExecutionRecord :=
  match w.engine with
  | none => [w.durable]
  | some m => w.durable :: m.pending ++ [m.record]

/-- Each of them continues the one before it. -/
def ExecutionWorld.Chain (w : ExecutionWorld) : Prop :=
  w.records.Pairwise fun r r' => r.events <+: r'.events

variable {m : ExecutionEngine}

section Chain

variable {host : EngineHost} {inp : EngineInput} {op : EngineOp} {w w' : ExecutionWorld}

theorem ExecutionWorld.Chain.memory (h : w.Chain) (hup : w.engine = some m) :
    w.durable.events <+: m.record.events := by
  unfold ExecutionWorld.Chain ExecutionWorld.records at h
  rw [hup] at h
  exact (List.pairwise_cons.mp h).1 m.record (by simp)

theorem ExecutionWorld.Chain.block (h : w.Chain) {m m' : ExecutionEngine} (hup : w.engine = some m)
    (hb : BlockStep anyRules m m') : ExecutionWorld.Chain { w with engine := some m' } := by
  have hgrows := hb.record.grows
  unfold ExecutionWorld.Chain ExecutionWorld.records at h ⊢
  rw [hup] at h
  rw [List.pairwise_append] at h ⊢
  obtain ⟨hold, -, hlast⟩ := h
  have hnew : ∀ r ∈ w.durable :: m.pending, r.events <+: m'.record.events := fun r hr =>
    (hlast r hr m.record (List.mem_singleton_self _)).trans hgrows
  rcases hb.pending with heq | heq
  · rw [heq]
    exact ⟨hold, List.pairwise_singleton _ _, fun r hr r' hr' => by
      rw [List.mem_singleton.mp hr']
      exact hnew r hr⟩
  · rw [heq, ← List.cons_append]
    refine ⟨List.pairwise_append.mpr ⟨hold, List.pairwise_singleton _ _, fun r hr r' hr' => ?_⟩,
      List.pairwise_singleton _ _, fun r hr r' hr' => ?_⟩
    · rw [List.mem_singleton.mp hr']
      exact hnew r hr
    · rw [List.mem_singleton.mp hr']
      rcases List.mem_append.mp hr with hr | hr
      · exact hnew r hr
      · rw [List.mem_singleton.mp hr]

theorem ExecutionWorld.Chain.write (h : w.Chain) (hup : w.engine = some m) (outcome : WriteOutcome) :
    (ExecutionWorld.write outcome m w.durable).Chain := by
  have hsame : ∀ m' : ExecutionEngine, m'.record = m.record → m'.pending = m.pending →
      ExecutionWorld.Chain ⟨some m', w.durable⟩ := by
    intro m' hrecord hpending
    unfold ExecutionWorld.Chain ExecutionWorld.records at h ⊢
    simp only [hup, hrecord, hpending] at h ⊢
    exact h
  unfold ExecutionWorld.write
  split
  · rename_i r rest hrest _
    have hall := h
    unfold ExecutionWorld.Chain ExecutionWorld.records at hall
    rw [hup] at hall
    simp only [hrest] at hall
    split
    · exact (List.pairwise_cons.mp hall).2
    · split_ifs
      · unfold ExecutionWorld.Chain ExecutionWorld.records
        simp only [hrest]
        refine List.pairwise_cons.mpr ⟨fun r' hr' => ?_, (List.pairwise_cons.mp hall).2⟩
        rcases List.mem_cons.mp hr' with rfl | hr'
        · exact List.prefix_rfl
        · exact (List.pairwise_cons.mp (List.pairwise_cons.mp hall).2).1 r' hr'
      · exact hsame _ rfl rfl
  · exact hsame m rfl rfl

theorem ExecutionWorld.Chain.step (h : w.Chain) (hs : WorldStep host inp w op w') : w'.Chain := by
  cases hs with
  | load process hdown =>
    unfold ExecutionWorld.Chain ExecutionWorld.records
    exact List.pairwise_pair.mpr List.prefix_rfl
  | block b m hup => exact h.block hup (block_step host b (anyRules_allow _ _ _))
  | write m hup => exact h.write hup _
  | none => exact h

/-- The stored log never loses anything. -/
theorem WorldStep.durable (h : w.Chain) (hs : WorldStep host inp w op w') :
    w.durable.events <+: w'.durable.events := by
  cases hs with
  | load => exact List.prefix_rfl
  | block => exact List.prefix_rfl
  | none => exact List.prefix_rfl
  | write m hup =>
    unfold ExecutionWorld.write
    split
    · rename_i r rest hrest _
      unfold ExecutionWorld.Chain ExecutionWorld.records at h
      rw [hup] at h
      simp only [hrest] at h
      have hr : w.durable.events <+: r.events := (List.pairwise_cons.mp h).1 r (by simp)
      split
      · exact hr
      · simp only
        split_ifs
        · exact hr
        · exact List.prefix_rfl
    · exact List.prefix_rfl

end Chain

/-! The procedures. -/

/-- What is left of a dispatch that is in the log: its write. -/
def confirming (ticket : ℕ) (callId : String) : EngineProg EngineAnswer :=
  ((EngineProg.written ticket).bind fun _ => Prog.ret callId).bind fun id =>
    .ret (.callId id)

/-- A procedure that has dispatched no call. -/
inductive Unsent : EngineProg EngineAnswer → Prop where
  | ret (a : EngineAnswer) (h : ∀ callId, a ≠ .callId callId) : Unsent (.ret a)
  | raise (e : EngineError) : Unsent (.raise e)
  | call (op : EngineOp) (next : op.Res → EngineProg EngineAnswer)
    (h : ∀ tool input callId options, op ≠ .block (.dispatch tool input callId options))
    (rest : ∀ r, Unsent (next r)) : Unsent (.call op next)
  | dispatch (tool input callId : String) (options : ToolStartOptions)
    (next : Except EngineError ℕ → EngineProg EngineAnswer)
    (sent : ∀ ticket, next (.ok ticket) = confirming ticket callId)
    (refused : ∀ e, Unsent (next (.error e))) :
    Unsent (.call (.block (.dispatch tool input callId options)) next)

def EngineOp.NoDispatch (op : EngineOp) : Prop :=
  ∀ tool input callId options, op ≠ .block (.dispatch tool input callId options)

namespace Unsent

variable {α : Type}

theorem bind {p : EngineProg α} (hp : p.Only EngineOp.NoDispatch)
    {f : α → EngineProg EngineAnswer} (hf : ∀ a, Unsent (f a)) : Unsent (p.bind f) := by
  induction p with
  | ret a => exact hf a
  | raise e => exact .raise e
  | call op next ih => exact .call op _ hp.1 fun r => ih r (hp.2 r)

theorem done {p : EngineProg α} (hp : p.Only EngineOp.NoDispatch) {f : α → EngineAnswer}
    (hf : ∀ a callId, f a ≠ .callId callId) : Unsent (p.bind fun a => .ret (f a)) :=
  bind hp fun a => .ret _ (hf a)

end Unsent

section Only

open EngineProg

theorem written_only (ticket : ℕ) : (written ticket).Only EngineOp.NoDispatch :=
  ⟨by rintro _ _ _ _ ⟨⟩, fun _ => Prog.only_resume⟩

theorem hook_only : hook.Only EngineOp.NoDispatch :=
  ⟨by rintro _ _ _ _ ⟨⟩, fun _ => Prog.only_resume⟩

theorem block_only {b : EngineBlock} (h : (EngineOp.block b).NoDispatch) :
    (block b).Only EngineOp.NoDispatch :=
  ⟨h, fun _ => Prog.only_resume⟩

theorem writtenIfAny_only (ticket : Option ℕ) : (writtenIfAny ticket).Only EngineOp.NoDispatch := by
  cases ticket with
  | none => trivial
  | some t => exact written_only t

theorem registered_only (ticket : Option ℕ) : (registered ticket).Only EngineOp.NoDispatch := by
  cases ticket with
  | none =>
    exact ⟨by rintro _ _ _ _ ⟨⟩, fun _ =>
      (block_only (by rintro _ _ _ _ ⟨⟩)).bind fun t => written_only t⟩
  | some t => exact written_only t

theorem setStatus_only (status : ExecutionStatus) (options : StatusOptions) :
    (setStatus status options).Only EngineOp.NoDispatch := by
  refine (block_only (by rintro _ _ _ _ ⟨⟩)).bind fun check => ?_
  cases check with
  | rejected e t => exact (written_only t).bind fun _ => trivial
  | written t => exact written_only t
  | passed check =>
    exact hook_only.bind fun _ => (block_only (by rintro _ _ _ _ ⟨⟩)).bind fun t => written_only t

theorem recordToolCall_only (call : ToolCallRecord) (claimant : LeaseClaimant) :
    (recordToolCall call claimant).Only EngineOp.NoDispatch := by
  refine (block_only (by rintro _ _ _ _ ⟨⟩)).bind fun step => ?_
  cases step with
  | repeated t => exact written_only t
  | recorded callId stepId =>
    exact hook_only.bind fun _ => (block_only (by rintro _ _ _ _ ⟨⟩)).bind fun t => written_only t

theorem reconcileToolCall_only (callId : String) (inspection : ToolOutcomeInspection)
    (inspectedBy : String) :
    (reconcileToolCall callId inspection inspectedBy).Only EngineOp.NoDispatch :=
  (block_only (by rintro _ _ _ _ ⟨⟩)).bind fun t => written_only t

theorem recordFilesChanged_only (files : List String) (mutated : Bool) (claimant : LeaseClaimant) :
    (recordFilesChanged files mutated claimant).Only EngineOp.NoDispatch := by
  unfold recordFilesChanged
  split_ifs
  · trivial
  · exact (block_only (by rintro _ _ _ _ ⟨⟩)).bind fun _ => hook_only.bind fun _ =>
      (block_only (by rintro _ _ _ _ ⟨⟩)).bind fun t => registered_only t

theorem recordEvidence_only (e : EvidenceInput) (claimant : LeaseClaimant) :
    (recordEvidence e claimant).Only EngineOp.NoDispatch :=
  (block_only (by rintro _ _ _ _ ⟨⟩)).bind fun _ => hook_only.bind fun _ =>
    (block_only (by rintro _ _ _ _ ⟨⟩)).bind fun t => written_only t

theorem startup_only (process : ℕ) (fastStartup : Bool) :
    (startup process fastStartup).Only EngineOp.NoDispatch :=
  ⟨by rintro _ _ _ _ ⟨⟩, fun _ =>
    (block_only (by rintro _ _ _ _ ⟨⟩)).bind fun t => writtenIfAny_only t⟩

theorem inspect_only (call : ToolCallCheckpoint) : (inspect call).Only EngineOp.NoDispatch := by
  refine ⟨by rintro _ _ _ _ ⟨⟩, fun r => ?_⟩
  cases r <;> trivial

theorem reconcileInspected_only (calls : List ToolCallCheckpoint) :
    (reconcileInspected calls).Only EngineOp.NoDispatch := by
  induction calls with
  | nil => trivial
  | cons call rest ih =>
    refine (inspect_only call).bind fun inspection => ?_
    split_ifs
    · exact ih
    · exact (reconcileToolCall_only _ _ _).bind fun _ => ih.bind fun _ => trivial

theorem reconcileLocalOutcomes_only (inspects : Bool) :
    (reconcileLocalOutcomes inspects).Only EngineOp.NoDispatch := by
  refine (block_only (by rintro _ _ _ _ ⟨⟩)).bind fun calls => ?_
  cases calls with
  | none => trivial
  | some calls =>
    have rest : ∀ done : List (String × ToolOutcome),
        (Prog.bind (block .orphanStranded) fun t => (writtenIfAny t).bind fun _ =>
          Prog.ret done).Only EngineOp.NoDispatch := fun done =>
      (block_only (by rintro _ _ _ _ ⟨⟩)).bind fun t => (writtenIfAny_only t).bind fun _ => trivial
    simp only [Prog.bind_def, Prog.pure_def]
    split_ifs
    · exact (reconcileInspected_only calls).bind rest
    · exact rest []

section CrossHarness

variable (host : EngineHost) (options : CrossHarnessOptions)

theorem confirmApplied_only (call : ToolCallCheckpoint) (evidence inspectedBy : String) :
    (confirmApplied host options call evidence inspectedBy).Only EngineOp.NoDispatch := by
  refine (reconcileToolCall_only _ _ _).bind fun _ => ?_
  split_ifs
  · refine (block_only (by rintro _ _ _ _ ⟨⟩)).bind fun current => ?_
    split_ifs
    · exact recordFilesChanged_only _ _ _
    · trivial
  · trivial

theorem inspectIf_only (call : ToolCallCheckpoint) :
    (inspectIf options call).Only EngineOp.NoDispatch := by
  unfold inspectIf
  split_ifs
  · exact inspect_only call
  · trivial

theorem resolveAuthorized_only (call : ToolCallCheckpoint) (inspection : ToolOutcomeInspection) :
    (resolveAuthorized host options call inspection).Only EngineOp.NoDispatch := by
  unfold resolveAuthorized
  split
  · trivial
  · split
    · trivial
    · exact (confirmApplied_only host options _ _ _).bind fun _ => trivial
    · exact (reconcileToolCall_only _ _ _).bind fun _ => trivial

theorem resolveCall_only (call : ToolCallCheckpoint) :
    (resolveCall host options call).Only EngineOp.NoDispatch := by
  unfold resolveCall
  split_ifs
  · exact (reconcileToolCall_only _ _ _).bind fun _ => trivial
  · refine (inspectIf_only options call).bind fun inspection => ?_
    split
    · exact (confirmApplied_only host options _ _ _).bind fun _ => trivial
    · exact (reconcileToolCall_only _ _ _).bind fun _ => trivial
    · exact resolveAuthorized_only host options call inspection

theorem resolveCalls_only (calls : List ToolCallCheckpoint) :
    (resolveCalls host options calls).Only EngineOp.NoDispatch := by
  induction calls with
  | nil => trivial
  | cons call rest ih =>
    exact (resolveCall_only host options call).bind fun _ => ih.bind fun _ => trivial

theorem crossHarness_only :
    (reconcileBeforeCrossHarnessResume host options).Only EngineOp.NoDispatch :=
  (block_only (by rintro _ _ _ _ ⟨⟩)).bind fun _ => resolveCalls_only host options _

end CrossHarness

end Only

theorem recordToolStart_unsent (tool input : String) (options : ToolStartOptions) :
    Unsent ((recordToolStart tool input options).bind fun id => .ret (.callId id)) := by
  refine .call _ _ (by rintro _ _ _ _ ⟨⟩) fun r => ?_
  cases r with
  | error e => exact .raise e
  | ok callId =>
    refine .call _ _ (by rintro _ _ _ _ ⟨⟩) fun r => ?_
    cases r with
    | error e => exact .raise e
    | ok =>
      exact .dispatch tool input callId options _ (fun _ => rfl) fun e => .raise e

theorem body_unsent (host : EngineHost) (req : EngineRequest) : Unsent (req.body host) := by
  unfold EngineRequest.body
  have flushed : ∀ b : EngineBlock, (hb : (EngineOp.block b).NoDispatch) →
      ∀ f : b.Out → EngineProg Unit, (∀ x, (f x).Only EngineOp.NoDispatch) →
      Unsent ((EngineProg.block b).bind fun x => (f x).bind fun _ => .ret .done) :=
    fun b hb f hf => .bind (block_only hb) fun x => .done (hf x) (by rintro _ _ ⟨⟩)
  cases req.call with
  | startup fastStartup => exact .done (startup_only _ _) (by rintro _ _ ⟨⟩)
  | write => exact .call _ _ (by rintro _ _ _ _ ⟨⟩) fun _ => .ret _ (by rintro _ ⟨⟩)
  | setStatus status options => exact .done (setStatus_only _ _) (by rintro _ _ ⟨⟩)
  | recordToolCall call claimant => exact .done (recordToolCall_only _ _) (by rintro _ _ ⟨⟩)
  | recordToolStart tool input options => exact recordToolStart_unsent tool input options
  | reconcileToolCall callId inspection inspectedBy =>
    exact .done (reconcileToolCall_only _ _ _) (by rintro _ _ ⟨⟩)
  | recordFilesChanged files mutated claimant =>
    exact .done (recordFilesChanged_only _ _ _) (by rintro _ _ ⟨⟩)
  | recordEvidence e claimant => exact .done (recordEvidence_only _ _) (by rintro _ _ ⟨⟩)
  | recordCheck check claimant => exact flushed _ (by rintro _ _ _ _ ⟨⟩) _ written_only
  | setEvaluation e claimant =>
    exact .done ((block_only (by rintro _ _ _ _ ⟨⟩)).bind registered_only) (by rintro _ _ ⟨⟩)
  | recordEvent event json identity claimant =>
    exact flushed _ (by rintro _ _ _ _ ⟨⟩) _ written_only
  | orphan => exact flushed _ (by rintro _ _ _ _ ⟨⟩) _ writtenIfAny_only
  | acquireLease workerId ttlMs start =>
    exact .bind (block_only (by rintro _ _ _ _ ⟨⟩)) fun l =>
      .done (written_only l.2) (by rintro _ _ ⟨⟩)
  | renewLease workerId options =>
    exact .bind (block_only (by rintro _ _ _ _ ⟨⟩)) fun l =>
      .done (written_only l.2) (by rintro _ _ ⟨⟩)
  | releaseLease workerId options =>
    exact .bind (block_only (by rintro _ _ _ _ ⟨⟩)) fun l =>
      .done (written_only l.2) (by rintro _ _ ⟨⟩)
  | pause => exact flushed _ (by rintro _ _ _ _ ⟨⟩) _ written_only
  | resume => exact flushed _ (by rintro _ _ _ _ ⟨⟩) _ written_only
  | steer params => exact flushed _ (by rintro _ _ _ _ ⟨⟩) _ written_only
  | reconcileLocalOutcomes inspects =>
    exact .done (reconcileLocalOutcomes_only inspects) (by rintro _ _ ⟨⟩)
  | reconcileBeforeCrossHarnessResume options =>
    exact .done (crossHarness_only host options) (by rintro _ _ ⟨⟩)

/-! A dispatch on its way to the store. -/

theorem dispatchedIds_mono {log log' : List ExecutionEvent} (h : log <+: log') {id : String}
    (hid : id ∈ dispatchedIds log) : id ∈ dispatchedIds log' :=
  (h.filterMap dispatchedId).subset hid

/-- The engine of the process has the dispatch in its log, and so has each snapshot from the one
with that number on. -/
def Sending (w : ExecutionWorld) (process ticket : ℕ) (callId : String) : Prop :=
  ∃ m, w.engine = some m ∧ m.process = process ∧ callId ∈ dispatchedIds m.record.events ∧
    (ticket ≤ m.landed → callId ∈ dispatchedIds w.durable.events) ∧
    ∀ k r, m.pending[k]? = some r → ticket ≤ m.landed + k + 1 → callId ∈ dispatchedIds r.events

section Sending

variable {host : EngineHost} {inp : EngineInput} {op : EngineOp} {w w' : ExecutionWorld}
  {process ticket : ℕ} {callId : String}

theorem Sending.write (h : Sending w process ticket callId) (hup : w.engine = some m)
    (outcome : WriteOutcome) :
    Sending (ExecutionWorld.write outcome m w.durable) process ticket callId := by
  obtain ⟨m', hup', hprocess, hlog, hdurable, hpending⟩ := h
  rw [hup] at hup'
  cases hup'
  unfold ExecutionWorld.write
  split
  · rename_i r rest hrest _
    have hnext : ticket ≤ m.landed + 1 → callId ∈ dispatchedIds r.events :=
      hpending 0 r (by rw [hrest]; rfl)
    split
    · refine ⟨_, rfl, hprocess, hlog, hnext, fun k r' hk hle => ?_⟩
      exact hpending (k + 1) r' (by rw [hrest]; exact hk) (by simp only at hle; omega)
    · refine ⟨_, rfl, hprocess, hlog, fun hle => ?_, hpending⟩
      simp only at hle ⊢
      split_ifs
      · exact hnext (by omega)
      · exact hdurable hle
  · exact ⟨m, rfl, hprocess, hlog, hdurable, hpending⟩

theorem Sending.step (h : Sending w process ticket callId) (hs : WorldStep host inp w op w') :
    Sending w' process ticket callId := by
  cases hs with
  | load _ hdown =>
    obtain ⟨m, hup, -⟩ := h
    rw [hdown] at hup
    cases hup
  | block b m hup =>
    obtain ⟨m', hup', hprocess, hlog, hdurable, hpending⟩ := h
    rw [hup] at hup'
    cases hup'
    have hb : BlockStep anyRules m (b.run host inp m).2 :=
      block_step host b (anyRules_allow m inp.now b)
    have hlog' := dispatchedIds_mono hb.record.grows hlog
    refine ⟨_, rfl, hb.process.trans hprocess, hlog', hb.landed ▸ hdurable, fun k r hk hle => ?_⟩
    rw [hb.landed] at hle
    rcases hb.pending with heq | heq
    · exact hpending k r (heq ▸ hk) hle
    · rw [heq, List.getElem?_append] at hk
      split_ifs at hk
      · exact hpending k r hk hle
      · have hmem := List.mem_of_getElem? hk
        rwa [List.mem_singleton.mp hmem]
  | write m hup => exact h.write hup _
  | none => exact h

/-- A dispatch that went through. -/
theorem dispatch_sends {tool input : String} {options : ToolStartOptions}
    (hok : ((EngineBlock.dispatch tool input callId options).run host inp m).1 = .ok ticket) :
    callId ∉ dispatchedIds m.record.events ∧
      Sending { w with engine := some ((EngineBlock.dispatch tool input callId options).run host inp
        m).2 } m.process ticket callId := by
  change (m.dispatch _ tool input callId options inp.now).1 = .ok ticket at hok
  change _ ∧ Sending { w with
    engine := some (m.dispatch host.hashToolArguments tool input callId options inp.now).2 } _ _ _
  unfold ExecutionEngine.dispatch at hok ⊢
  simp only at hok ⊢
  split_ifs at hok ⊢ with hfresh halone
  have hnew : callId ∉ dispatchedIds m.record.events := by
    intro hmem
    obtain ⟨c, hc, heq⟩ := mem_dispatchedIds.mp hmem
    exact hfresh (List.any_eq_true.mpr ⟨c, hc, decide_eq_true heq⟩)
  refine ⟨hnew, ?_⟩
  unfold ExecutionEngine.flush at hok ⊢
  split at hok
  · cases hok
  · rename_i hfailure
    cases hok
    simp only [hfailure]
    refine ⟨_, rfl, rfl, ?_, fun hle => ?_, fun k r hk hle => ?_⟩
    · simp [ExecutionEngine.withRecord, ExecutionRecord.push, dispatchedIds, dispatchedId,
        ExecutionRecord.newEvent]
    · simp only [ExecutionEngine.withRecord] at hle
      omega
    · simp only [ExecutionEngine.withRecord] at hle hk
      rw [List.getElem?_append_right (by omega), show k - m.pending.length = 0 by
        have := (List.getElem?_eq_some_iff.mp hk).1
        simp only [List.length_singleton] at this
        omega] at hk
      cases hk
      simp [ExecutionRecord.push, dispatchedIds, dispatchedId, ExecutionRecord.newEvent]

end Sending

/-! Who has dispatched a call. -/

abbrev EngineThread := Thread EngineOp EngineOp.Res EngineError EngineAnswer EngineRequest

/-- The procedure has dispatched the call: it waits for the write, or has returned the id. -/
def Owns (callId : String) (p : EngineProg EngineAnswer) : Prop :=
  p = .ret (.callId callId) ∨ ∃ ticket, p = confirming ticket callId

variable {p : EngineProg EngineAnswer}

theorem Unsent.not_owns (h : Unsent p) (callId : String) :
    ¬Owns callId p := by
  have hret : ¬Unsent (.ret (.callId callId)) := by
    rintro ⟨_, hne⟩
    exact hne callId rfl
  rintro (rfl | ⟨ticket, rfl⟩)
  · exact hret h
  · cases h with
    | call _ _ _ rest => exact hret (rest (.ok ()))

/-- How a procedure goes on once its first write is stored, and which write that is. -/
def goesOn : EngineProg EngineAnswer → EngineProg EngineAnswer
  | .call (.written _) next => next (.ok ())
  | p => p

def firstWrite : EngineProg EngineAnswer → ℕ
  | .call (.written ticket) _ => ticket
  | _ => 0

theorem Owns.unique {callId callId' : String} (h : Owns callId p) (h' : Owns callId' p) :
    callId = callId' := by
  have hnext : ∀ {ticket ticket' : ℕ}, confirming ticket callId = confirming ticket' callId' →
      callId = callId' := by
    intro ticket ticket' heq
    have := congrArg goesOn heq
    cases this
    rfl
  rcases h with rfl | ⟨ticket, rfl⟩
  · rcases h' with heq | ⟨ticket, heq⟩
    · cases heq
      rfl
    · cases heq
  · rcases h' with heq | ⟨ticket', heq⟩
    · cases heq
    · exact hnext heq

/-- Each thread has dispatched one call at most, and no two of them the same. A thread is of the
engine that is up, or about to load one. -/
structure Confirmed (cfg : EngineConfig) : Prop where
  chain : cfg.hist.shared.Chain
  home : ∀ t ∈ cfg.threads, ∀ p, t.rest = some p →
    (∃ next, p = .call (.load t.call.process) next) ∨
      ∃ m, cfg.hist.shared.engine = some m ∧ m.process = t.call.process
  shape : ∀ t ∈ cfg.threads, ∀ p, t.rest = some p → Unsent p ∨ ∃ callId, Owns callId p
  sending : ∀ t ∈ cfg.threads, ∀ ticket callId, t.rest = some (confirming ticket callId) →
    Sending cfg.hist.shared t.call.process ticket callId
  stored : ∀ t ∈ cfg.threads, ∀ callId, t.rest = some (.ret (.callId callId)) →
    callId ∈ dispatchedIds cfg.hist.shared.durable.events
  once : ∀ (i j : ℕ) (t t' : EngineThread) (p p' : EngineProg EngineAnswer) (callId : String),
    cfg.threads[i]? = some t → cfg.threads[j]? = some t' → t.rest = some p → t'.rest = some p' →
    Owns callId p → Owns callId p' → i = j

variable {w w' : ExecutionWorld}

section Confirmed

variable {host : EngineHost} {cfg : EngineConfig}

/-- A dispatched call is in the log of the engine that is up. -/
theorem Confirmed.inLog (h : Confirmed cfg) (hup : cfg.hist.shared.engine = some m)
    {t : EngineThread} (ht : t ∈ cfg.threads) (hrest : t.rest = some p) {callId : String}
    (howns : Owns callId p) : callId ∈ dispatchedIds m.record.events := by
  rcases howns with rfl | ⟨ticket, rfl⟩
  · exact dispatchedIds_mono (h.chain.memory hup) (h.stored t ht callId hrest)
  · obtain ⟨m', hup', -, hlog, -⟩ := h.sending t ht ticket callId hrest
    rw [hup] at hup'
    cases hup'
    exact hlog

theorem engineAdmits_same {req : EngineRequest} (h : engineAdmits req w = some w') : w' = w := by
  unfold engineAdmits at h
  split at h
  · exact (Option.some.inj h).symm
  · cases h
  · cases h
  · split_ifs at h
    exact (Option.some.inj h).symm

theorem engineAdmits_home (host : EngineHost) {req : EngineRequest}
    (h : engineAdmits req w = some w') :
    (∃ next, req.body host = .call (.load req.process) next) ∨
      ∃ m, w.engine = some m ∧ m.process = req.process := by
  unfold engineAdmits at h
  split at h
  · rename_i fastStartup hcall _
    left
    unfold EngineRequest.body
    rw [hcall]
    exact ⟨_, rfl⟩
  · cases h
  · cases h
  · rename_i m hup _
    split_ifs at h with hproc
    exact .inr ⟨m, hup, hproc⟩

theorem Confirmed.begin (h : Confirmed cfg) {c : EngineRequest} {s : ExecutionWorld}
    (hadm : engineAdmits c cfg.hist.shared = some s) :
    Confirmed ⟨cfg.hist.push (.began cfg.threads.length c) s,
      cfg.threads ++ [⟨c, some (c.body host)⟩]⟩ := by
  have hhome := engineAdmits_home host hadm
  rw [engineAdmits_same hadm]
  have hbody := body_unsent host c
  have hnew : ∀ callId, ¬Owns callId (c.body host) := hbody.not_owns
  have split : ∀ t ∈ cfg.threads ++ [⟨c, some (c.body host)⟩],
      t ∈ cfg.threads ∨ t = ⟨c, some (c.body host)⟩ := by
    intro t ht
    exact (List.mem_append.mp ht).imp_right List.mem_singleton.mp
  have before : ∀ (i : ℕ) (t : EngineThread) (p : EngineProg EngineAnswer) (callId : String),
      (cfg.threads ++ [⟨c, some (c.body host)⟩])[i]? = some t →
      t.rest = some p → Owns callId p → cfg.threads[i]? = some t := by
    intro i t p callId hi hrest howns
    rw [List.getElem?_append] at hi
    split_ifs at hi with hlt
    · exact hi
    · rw [List.mem_singleton.mp (List.mem_of_getElem? hi)] at hrest
      cases hrest
      exact absurd howns (hnew callId)
  refine ⟨h.chain, fun t ht p hp => ?_, fun t ht p hp => ?_, fun t ht ticket callId hrest => ?_,
    fun t ht callId hrest => ?_, fun i j t t' p p' callId hi hj hp hp' ho ho' => ?_⟩
  · rcases split t ht with hold | rfl
    · exact h.home t hold p hp
    · cases hp
      exact hhome
  · rcases split t ht with hold | rfl
    · exact h.shape t hold p hp
    · cases hp
      exact .inl hbody
  · rcases split t ht with hold | rfl
    · exact h.sending t hold ticket callId hrest
    · exact absurd (.inr ⟨ticket, Option.some.inj hrest⟩) (hnew callId)
  · rcases split t ht with hold | rfl
    · exact h.stored t hold callId hrest
    · exact absurd (.inl (Option.some.inj hrest)) (hnew callId)
  · exact h.once i j t t' p p' callId (before i t p callId hi hp ho) (before j t' p' callId hj hp' ho')
      hp hp' ho ho'

theorem Confirmed.crash (h : Confirmed cfg) (p : ℕ) :
    Confirmed ⟨cfg.hist.push (.crashed p) ((engineSystem host).crash p cfg.hist.shared),
      cfg.threads.map (Thread.kill (engineSystem host) p)⟩ := by
  have alive : ∀ t ∈ cfg.threads.map (Thread.kill (engineSystem host) p), ∀ q, t.rest = some q →
      t ∈ cfg.threads ∧ t.call.process ≠ p := by
    intro t ht q hq
    obtain ⟨t₀, ht₀, rfl⟩ := List.mem_map.mp ht
    unfold Thread.kill at hq ⊢
    split_ifs at hq ⊢ with hproc
    exact ⟨ht₀, hproc⟩
  have same : ∀ (i : ℕ) (t : EngineThread) (q : EngineProg EngineAnswer),
      (cfg.threads.map (Thread.kill (engineSystem host) p))[i]? = some t →
      t.rest = some q → cfg.threads[i]? = some t := by
    intro i t q hi hq
    rw [List.getElem?_map] at hi
    obtain ⟨t₀, ht₀, rfl⟩ := Option.map_eq_some_iff.mp hi
    unfold Thread.kill at hq ⊢
    split_ifs at hq ⊢
    exact ht₀
  have hdurable : ((engineSystem host).crash p cfg.hist.shared).durable = cfg.hist.shared.durable := by
    change (ite _ _ _ : ExecutionWorld).durable = _
    split_ifs <;> rfl
  -- the engine of another process stays
  have stays : ∀ m, cfg.hist.shared.engine = some m → m.process ≠ p →
      (engineSystem host).crash p cfg.hist.shared = cfg.hist.shared := by
    intro m hup hproc
    exact if_neg (by simp [hup, hproc])
  refine ⟨?_, fun t ht q hq => ?_, fun t ht q hq => h.shape t (alive t ht q hq).1 q hq,
    fun t ht ticket callId hrest => ?_, fun t ht callId hrest => ?_,
    fun i j t t' q q' callId hi hj hq hq' => ?_⟩
  · change (ite _ _ _ : ExecutionWorld).Chain
    split_ifs
    · exact List.pairwise_singleton _ _
    · exact h.chain
  · obtain ⟨hold, hproc⟩ := alive t ht q hq
    rcases h.home t hold q hq with hload | ⟨m, hup, hm⟩
    · exact .inl hload
    · exact .inr ⟨m, by rw [Hist.push_shared, stays m hup (hm ▸ hproc), hup], hm⟩
  · obtain ⟨hold, hproc⟩ := alive t ht _ hrest
    obtain ⟨m, hup, hprocess, hall⟩ := h.sending t hold ticket callId hrest
    rw [Hist.push_shared, stays m hup (hprocess ▸ hproc)]
    exact ⟨m, hup, hprocess, hall⟩
  · rw [Hist.push_shared, hdurable]
    exact h.stored t (alive t ht _ hrest).1 callId hrest
  · exact h.once i j t t' q q' callId (same i t q hi hq) (same j t' q' hj hq') hq hq'

section Run

variable {i : ℕ} {c : EngineRequest} {op : EngineOp} {next : op.Res → EngineProg EngineAnswer}
  {inp : EngineInput} {r : op.Res} {s : ExecutionWorld}

/-- The engine that is up stays up, under the same process. -/
theorem WorldStep.process (hs : WorldStep host inp w op w') (hup : w.engine = some m) :
    ∃ m', w'.engine = some m' ∧ m'.process = m.process := by
  cases hs with
  | load _ hdown =>
    rw [hup] at hdown
    cases hdown
  | block b m₀ hup₀ =>
    rw [hup] at hup₀
    cases hup₀
    have hb : BlockStep anyRules m (b.run host inp m).2 :=
      block_step host b (anyRules_allow m inp.now b)
    exact ⟨_, rfl, hb.process⟩
  | write m₀ hup₀ =>
    rw [hup] at hup₀
    cases hup₀
    unfold ExecutionWorld.write
    split
    · split
      · exact ⟨_, rfl, rfl⟩
      · exact ⟨_, rfl, rfl⟩
    · exact ⟨m, rfl, rfl⟩
  | none => exact ⟨m, hup, rfl⟩

/-- What a thread with a dispatched call stands on. -/
structure Dispatched (w : ExecutionWorld) (process : ℕ) (p : EngineProg EngineAnswer)
    (callId : String) : Prop where
  owns : Owns callId p
  sending : ∀ ticket, p = confirming ticket callId → Sending w process ticket callId
  stored : p = .ret (.callId callId) → callId ∈ dispatchedIds w.durable.events

/-- The dispatch of a call that no thread has dispatched. -/
theorem Confirmed.dispatches (h : Confirmed cfg) (hup : cfg.hist.shared.engine = some m)
    {tool input callId : String} {options : ToolStartOptions} {ticket : ℕ}
    (hok : ((EngineBlock.dispatch tool input callId options).run host inp m).1 = .ok ticket) :
    Dispatched { cfg.hist.shared with engine := some ((EngineBlock.dispatch tool input callId
        options).run host inp m).2 } m.process (confirming ticket callId) callId ∧
      ∀ t ∈ cfg.threads, ∀ p, t.rest = some p → ¬Owns callId p := by
  obtain ⟨hfresh, hsends⟩ := dispatch_sends (w := cfg.hist.shared) hok
  refine ⟨⟨.inr ⟨ticket, rfl⟩, fun ticket' heq => ?_, by rintro ⟨⟩⟩, fun t ht p hp ho => ?_⟩
  · have := congrArg firstWrite heq
    cases this
    exact hsends
  · exact hfresh (h.inLog hup ht hp ho)

/-- What `confirming` comes to. -/
def confirmed (r : Except EngineError Unit) (callId : String) : EngineProg EngineAnswer :=
  ((Prog.resume r : EngineProg Unit).bind fun _ => Prog.ret callId).bind fun id => .ret (.callId id)

theorem confirming_next {w : ExecutionWorld} {process ticket : ℕ} {callId : String}
    {r : Except EngineError Unit} (hsending : Sending w process ticket callId)
    (hx : engineExec host (.written ticket) inp w = some (r, s)) :
    s = w ∧ (Unsent (confirmed r callId) ∨ Dispatched w process (confirmed r callId) callId) := by
  obtain ⟨m, hup, -, -, hdurable, -⟩ := hsending
  unfold engineExec at hx
  simp only [hup] at hx
  obtain ⟨r', hstate, heq⟩ := Option.map_eq_some_iff.mp hx
  cases heq
  refine ⟨rfl, ?_⟩
  cases r with
  | error e => exact .inl (.raise e)
  | ok =>
    unfold ExecutionWorld.ticketState at hstate
    split_ifs at hstate with hle
    · exact .inr ⟨.inl rfl, by rintro _ ⟨⟩, fun _ => hdurable hle⟩
    · cases hfailure : m.persistenceFailure <;> simp [hfailure] at hstate

/-- What is left of a thread's procedure after its command: no call dispatched, or one that no other
thread has dispatched. -/
theorem Confirmed.outcome (h : Confirmed cfg)
    (hw : cfg.threads[i]? = some ⟨c, some (.call op next)⟩)
    (hx : engineExec host op inp cfg.hist.shared = some (r, s)) :
    Unsent (next r) ∨ ∃ callId, Dispatched s c.process (next r) callId ∧
      ∀ (j : ℕ) (t : EngineThread) (p : EngineProg EngineAnswer), cfg.threads[j]? = some t →
        t.rest = some p → Owns callId p → j = i := by
  have hmem := List.mem_of_getElem? hw
  rcases h.shape _ hmem _ rfl with hunsent | ⟨callId, hret | ⟨ticket, hticket⟩⟩
  · cases hunsent with
    | call _ _ _ rest => exact .inl (rest r)
    | dispatch tool input callId options _ sent refused =>
      cases r with
      | error e => exact .inl (refused e)
      | ok ticket =>
        rcases h.home _ hmem _ rfl with ⟨_, hload⟩ | ⟨m, hup, hprocess⟩
        · cases hload
        · simp only [engineExec, hup, Option.some.injEq, Prod.mk.injEq] at hx
          obtain ⟨hok, rfl⟩ := hx
          obtain ⟨hsent, hnone⟩ := h.dispatches hup hok
          rw [sent ticket, ← show m.process = c.process from hprocess]
          exact .inr ⟨callId, hsent, fun j t p hj hp ho =>
            absurd ho (hnone t (List.mem_of_getElem? hj) p hp)⟩
  · cases hret
  · have howns : Owns callId (.call op next) := .inr ⟨ticket, hticket⟩
    have hsending := h.sending _ hmem ticket callId (congrArg some hticket)
    cases hticket
    obtain ⟨rfl, hnext⟩ := confirming_next hsending hx
    change Unsent (confirmed r callId) ∨ ∃ callId', Dispatched cfg.hist.shared c.process
      (confirmed r callId) callId' ∧ _
    refine hnext.imp id fun hdispatched => ⟨callId, hdispatched, fun j t p hj hp ho => ?_⟩
    exact h.once j i t _ p _ callId hj hw hp rfl ho howns

theorem Confirmed.run (h : Confirmed cfg)
    (hw : cfg.threads[i]? = some ⟨c, some (.call op next)⟩)
    (hx : engineExec host op inp cfg.hist.shared = some (r, s)) :
    Confirmed ⟨cfg.hist.push (.ran ⟨i, c, op, inp, r, cfg.hist.shared, s⟩) s,
      cfg.threads.set i ⟨c, some (next r)⟩⟩ := by
  have hs := engineExec_step hx
  have hnext := h.outcome hw hx
  have hmem := List.mem_of_getElem? hw
  have split : ∀ (j : ℕ) (t : EngineThread), (cfg.threads.set i ⟨c, some (next r)⟩)[j]? = some t →
      j = i ∧ t = ⟨c, some (next r)⟩ ∨ j ≠ i ∧ cfg.threads[j]? = some t := by
    intro j t hj
    by_cases hji : j = i
    · subst hji
      rw [List.getElem?_set_self (List.getElem?_eq_some_iff.mp hw).1] at hj
      exact .inl ⟨rfl, (Option.some.inj hj).symm⟩
    · rw [List.getElem?_set_ne (Ne.symm hji)] at hj
      exact .inr ⟨hji, hj⟩
  have splitMem : ∀ t ∈ cfg.threads.set i ⟨c, some (next r)⟩,
      t = ⟨c, some (next r)⟩ ∨ t ∈ cfg.threads := by
    intro t ht
    obtain ⟨j, hj⟩ := List.getElem?_of_mem ht
    rcases split j t hj with ⟨-, ht⟩ | ⟨-, hold⟩
    · exact .inl ht
    · exact .inr (List.mem_of_getElem? hold)
  refine ⟨h.chain.step hs, fun t ht p hp => ?_, fun t ht p hp => ?_,
    fun t ht ticket callId hrest => ?_, fun t ht callId hrest => ?_,
    fun j k t t' p p' callId hj hk hp hp' ho ho' => ?_⟩
  · have hstays : ∀ process, (∃ m, cfg.hist.shared.engine = some m ∧ m.process = process) →
        ∃ m, s.engine = some m ∧ m.process = process := by
      rintro process ⟨m, hup, rfl⟩
      exact hs.process hup
    rcases splitMem t ht with rfl | hold
    · right
      rcases h.home _ hmem _ rfl with ⟨next', hload⟩ | hup
      · have hload : Prog.call op next = .call (.load c.process) next' := hload
        cases hload
        cases hup : cfg.hist.shared.engine <;> simp only [engineExec, hup, reduceCtorEq,
          Option.some.injEq, Prod.mk.injEq] at hx
        obtain ⟨-, rfl⟩ := hx
        exact ⟨_, rfl, rfl⟩
      · exact hstays _ hup
    · exact (h.home t hold p hp).imp_right (hstays _)
  · rcases splitMem t ht with rfl | hold
    · cases hp
      exact hnext.imp_right fun ⟨callId, hdispatched, _⟩ => ⟨callId, hdispatched.owns⟩
    · exact h.shape t hold p hp
  · rcases splitMem t ht with rfl | hold
    · have howns : Owns callId (next r) := .inr ⟨ticket, Option.some.inj hrest⟩
      rcases hnext with hunsent | ⟨callId', hdispatched, -⟩
      · exact absurd howns (hunsent.not_owns callId)
      · obtain rfl := howns.unique hdispatched.owns
        exact hdispatched.sending ticket (Option.some.inj hrest)
    · exact (h.sending t hold ticket callId hrest).step hs
  · rcases splitMem t ht with rfl | hold
    · have howns : Owns callId (next r) := .inl (Option.some.inj hrest)
      rcases hnext with hunsent | ⟨callId', hdispatched, -⟩
      · exact absurd howns (hunsent.not_owns callId)
      · obtain rfl := howns.unique hdispatched.owns
        exact hdispatched.stored (Option.some.inj hrest)
    · exact dispatchedIds_mono (hs.durable h.chain) (h.stored t hold callId hrest)
  · have only : ∀ (l : ℕ) (u : EngineThread) (q : EngineProg EngineAnswer),
        cfg.threads[l]? = some u → u.rest = some q → Owns callId q → Owns callId (next r) →
        l = i := by
      intro l u q hl hq hoq hor
      rcases hnext with hunsent | ⟨callId', hdispatched, hother⟩
      · exact absurd hor (hunsent.not_owns callId)
      · obtain rfl := hor.unique hdispatched.owns
        exact hother l u q hl hq hoq
    rcases split j t hj with ⟨rfl, rfl⟩ | ⟨hji, hjold⟩
    · rcases split k t' hk with ⟨rfl, rfl⟩ | ⟨hki, hkold⟩
      · rfl
      · cases hp
        exact (only k t' p' hkold hp' ho' ho).symm
    · rcases split k t' hk with ⟨rfl, rfl⟩ | ⟨hki, hkold⟩
      · cases hp'
        exact only j t p hjold hp ho ho'
      · exact h.once j k t t' p p' callId hjold hkold hp hp' ho ho'

end Run

theorem Confirmed.reached {process : ℕ} {inJob : Bool} {acceptance : AcceptanceContract}
    (hr : Reach (engineSystem host) (createdWorld process inJob acceptance) cfg) :
    Confirmed cfg := by
  induction hr with
  | start =>
    refine ⟨List.pairwise_pair.mpr List.prefix_rfl, ?_, ?_, ?_, ?_, ?_⟩
    · intro t ht
      cases ht
    · intro t ht
      cases ht
    · intro t ht
      cases ht
    · intro t ht
      cases ht
    · intro i j t t' p p' callId hi
      cases hi
  | step _ hs ih =>
    cases hs with
    | begin c s _ hadm => exact ih.begin hadm
    | run i c op next inp r s hw hx => exact ih.run hw hx
    | crash p => exact ih.crash p

end Confirmed

end Wazir.Core
