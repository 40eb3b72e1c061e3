import Wazir.Async.Trace
import Wazir.Goals.LedgerSystem

/-! Lease fencing: over every run of the ledger store, whatever holders and processes race,
epochs only grow, the stored lease carries the newest one, and a commit that goes through
does so under that lease. -/

namespace Wazir.Goals

open Wazir.Async

/-! What a command in the history stands for. -/

def RunUpdate.isCommit : RunUpdate → Bool
  | .commit _ _ _ _ => true
  | _ => false

/-- The compare-and-set of a successful commit on `runId`. -/
def commitsTo (runId : GoalRunId) (e : LedgerEntry) : Bool :=
  match e.op, e.res with
  | .updateRun id u, .ok _ => id = runId && u.isCommit
  | _, _ => false

def committedUnder (e : LedgerEntry) : Option RunLease :=
  match e.op with
  | .updateRun _ (.commit _ lease _ _) => some lease
  | _ => none

/-- The epoch an `update` that goes through issues. -/
def newEpoch : RunUpdate → Option StoredLease → Option ℕ
  | .acquire _ _, some lease => some lease.epoch
  | _, _ => none

/-- The epoch the command issued for `runId`. -/
def issuedEpoch (runId : GoalRunId) (e : LedgerEntry) : Option ℕ :=
  match e.op, e.res with
  | .updateRun id u, .ok out => if id = runId then newEpoch u out.2 else none
  | _, _ => none

/-- All epochs issued for `runId`, oldest first. -/
def issuedEpochs (runId : GoalRunId) (h : LedgerHist) : List ℕ :=
  h.entries.filterMap (issuedEpoch runId)

theorem issuedEpochs_ran (runId : GoalRunId) (h : LedgerHist) (e : LedgerEntry)
    (s : LedgerShared) :
    issuedEpochs runId (h.push (.ran e) s) = issuedEpochs runId h ++ (issuedEpoch runId e).toList := by
  simp only [issuedEpochs, Hist.entries_push_ran, List.filterMap_append]
  cases he : issuedEpoch runId e <;> simp [he]

/-! The state invariant. -/

structure LeaseInv (env : Option RunEnvelope) (issued : List ℕ) : Prop where
  increasing : issued.Pairwise (· < ·)
  absent : env = none → issued = []
  bounded : ∀ e, env = some e → ∀ k ∈ issued, k ≤ e.maxEpoch
  held : ∀ e l, env = some e → e.lease = some l → l.epoch = e.maxEpoch ∧ l.epoch ∈ issued

theorem LeaseInv.same_lease {old new : RunEnvelope} {issued : List ℕ}
    (h : LeaseInv (some old) issued) (hl : new.lease = old.lease)
    (hm : new.maxEpoch = old.maxEpoch) : LeaseInv (some new) issued where
  increasing := h.increasing
  absent := by simp
  bounded := by
    rintro _ ⟨⟩
    rw [hm]
    exact h.bounded old rfl
  held := by
    rintro _ l ⟨⟩ hlease
    rw [hm]
    exact h.held old l rfl (hl ▸ hlease)

variable {old : RunEnvelope}

theorem LeaseInv.same_epoch {lease : StoredLease} {issued : List ℕ} {now : StoredLease}
    (h : LeaseInv (some old) issued) (hl : old.lease = some lease) (he : now.epoch = lease.epoch) :
    LeaseInv (some { old with lease := some now }) issued where
  increasing := h.increasing
  absent := by simp
  bounded := by
    rintro _ ⟨⟩
    exact h.bounded old rfl
  held := by
    rintro _ l ⟨⟩ hlease
    cases hlease
    rw [he]
    exact h.held old lease rfl hl

theorem LeaseInv.acquired {lease : StoredLease} {issued : List ℕ} (h : LeaseInv (some old) issued)
    (he : old.maxEpoch < lease.epoch) :
    LeaseInv (some { old with lease := some lease, maxEpoch := lease.epoch })
      (issued ++ [lease.epoch]) where
  increasing := by
    refine List.pairwise_append.mpr ⟨h.increasing, List.pairwise_singleton _ _, ?_⟩
    intro k hk m hm
    obtain rfl := List.mem_singleton.mp hm
    exact lt_of_le_of_lt (h.bounded old rfl k hk) he
  absent := by simp
  bounded := by
    rintro _ ⟨⟩ k hk
    rcases List.mem_append.mp hk with hk | hk
    · exact (h.bounded old rfl k hk).trans he.le
    · exact (List.mem_singleton.mp hk).le
  held := by
    rintro _ l ⟨⟩ hlease
    cases hlease
    exact ⟨rfl, by simp⟩

variable {runId : GoalRunId}

/-- One `update` keeps the invariant; only an acquisition issues an epoch. -/
theorem LeaseInv.apply {u : RunUpdate} {now : JsDate} {current : Option RunEnvelope}
    {out : Option RunEnvelope × Option StoredLease} {issued : List ℕ} (h : LeaseInv current issued)
    (hu : u.apply runId now current = .ok out) :
    LeaseInv out.1 (issued ++ (newEpoch u out.2).toList) := by
  cases u with
  | create ledger =>
    obtain ⟨e, he, rfl⟩ := except_map_eq_ok.mp hu
    obtain ⟨rfl, rfl⟩ := createUpdate_ok he
    obtain rfl := h.absent rfl
    exact ⟨by simp [newEpoch], by simp, by simp [newEpoch], by rintro _ l ⟨⟩ ⟨⟩⟩
  | commit expectedRevision lease mutate transitions =>
    obtain ⟨e, he, rfl⟩ := except_map_eq_ok.mp hu
    obtain ⟨old, draft, stampedAt, rfl, -, -, -, -, -, -, rfl⟩ := commitUpdate_ok he
    simp only [newEpoch, Option.toList_none, List.append_nil]
    exact h.same_lease rfl rfl
  | acquire holderId ttlMs =>
    obtain ⟨e, he, rfl⟩ := except_map_eq_ok.mp hu
    obtain ⟨old, rfl, rfl | ⟨lease, hepoch, -, -, rfl⟩⟩ := acquireUpdate_ok he
    · simpa [newEpoch] using h
    · exact h.acquired (by omega)
  | renew lease ttlMs =>
    obtain ⟨e, he, rfl⟩ := except_map_eq_ok.mp hu
    obtain ⟨old, held, expiresAt, rfl, hl, -, -, -, rfl⟩ := renewUpdate_ok he
    simp only [newEpoch, Option.toList_none, List.append_nil]
    exact h.same_epoch hl rfl
  | release lease =>
    obtain ⟨e, he, rfl⟩ := except_map_eq_ok.mp hu
    simp only [newEpoch, Option.toList_none, List.append_nil]
    obtain rfl | ⟨old, held, expiresAt, rfl, hl, -, -, -, rfl⟩ := releaseUpdate_ok he
    · exact h
    · exact h.same_epoch hl rfl

variable {e : LedgerEntry}

theorem issuedEpoch_quiet (h : wrote e = false) :
    issuedEpoch runId e = none := by
  obtain ⟨i, c, op, inp, r, before, after⟩ := e
  cases op with
  | updateRun id u =>
    cases r with
    | error x => rfl
    | ok out => simp [wrote] at h
  | _ => rfl

theorem leaseInv_entry {issued : List ℕ} (h : LeaseInv (e.before.runs.lookup runId) issued)
    (hx : ledgerExec e.op e.input e.before = (e.res, e.after)) :
    LeaseInv (e.after.runs.lookup runId) (issued ++ (issuedEpoch runId e).toList) := by
  rcases ledgerEntry_cases hx with ⟨hw, hruns⟩ | ⟨i, c, id, u, inp, out, before, rfl, hu, hl⟩
  · simpa [issuedEpoch_quiet hw, hruns] using h
  by_cases hid : id = runId
  · subst hid
    rw [hl]
    simpa [issuedEpoch] using h.apply hu
  · rw [LedgerShared.setRun_other _ _ (Ne.symm hid)]
    simpa [issuedEpoch, hid] using h

theorem leaseInv_reach {cfg : LedgerConfig} (hr : Reach ledgerSystem emptyStore cfg)
    (runId : GoalRunId) :
    LeaseInv (cfg.hist.shared.runs.lookup runId) (issuedEpochs runId cfg.hist) := by
  refine Reach.invariant
    (I := fun h => LeaseInv (h.shared.runs.lookup runId) (issuedEpochs runId h)) ?_ ?_ ?_ ?_ hr
  · exact ⟨by simp [issuedEpochs, Hist.entries], by simp [issuedEpochs, Hist.entries],
      by simp [emptyStore], by simp [emptyStore]⟩
  · rintro h i c s hi ⟨⟩
    simpa [issuedEpochs] using hi
  · intro h i c op inp r s hi hx
    simp only [ledgerSystem, Option.some.injEq] at hx
    rw [issuedEpochs_ran]
    exact leaseInv_entry (e := ⟨i, c, op, inp, r, h.shared, s⟩) hi hx
  · intro h p hi
    simpa [issuedEpochs, ledgerSystem] using hi

/-! What one call does to the envelopes. -/

/-- The envelope writes among a call's commands. -/
def writes (es : List LedgerEntry) : List LedgerEntry := es.filter wrote

@[simp] theorem writes_append (es es' : List LedgerEntry) :
    writes (es ++ es') = writes es ++ writes es' := List.filter_append ..

def LedgerOp.reads : LedgerOp → Prop
  | .updateRun _ _ => False
  | _ => True

theorem writes_of_reads {α : Type} {p : LedgerProg α} (hp : p.Only LedgerOp.reads)
    {es : List LedgerEntry} {out : Except Thrown α} (h : Ends p es out) : writes es = [] := by
  refine List.filter_eq_nil_iff.mpr fun e he => ?_
  have hop := hp.mem h e he
  obtain ⟨i, c, op, inp, r, before, after⟩ := e
  cases op with
  | updateRun id u => exact hop.elim
  | _ => simp [wrote]

namespace GoalLedgerStore

theorem readEnvelope_reads (runId : GoalRunId) : (readEnvelope runId).Only LedgerOp.reads := by
  refine ⟨trivial, fun r => ?_⟩
  cases r with
  | error x => trivial
  | ok env =>
    cases env with
    | none => trivial
    | some env =>
      simp only [Prog.resume_ok, Prog.bind_ret]
      split_ifs <;> simp

theorem requireEnvelope_reads (runId : GoalRunId) :
    (requireEnvelope runId).Only LedgerOp.reads := by
  refine (readEnvelope_reads runId).bind fun env => ?_
  cases env <;> simp

theorem getRun_reads (runId : GoalRunId) : (getRun runId).Only LedgerOp.reads :=
  (readEnvelope_reads runId).bind fun _ => trivial

theorem currentLease_reads (runId : GoalRunId) : (currentLease runId).Only LedgerOp.reads :=
  (readEnvelope_reads runId).bind fun _ => trivial

theorem transitions_reads (runId : GoalRunId) (targetId : Option TargetId) :
    (transitions runId targetId).Only LedgerOp.reads :=
  .bind ⟨trivial, by simp⟩ fun _ => (readEnvelope_reads runId).bind fun _ => trivial

theorem materialiseFrom_reads (runId : GoalRunId) (revision : ℤ) (seq : ℕ)
    (ts : List TargetTransition) : (materialiseFrom runId revision seq ts).Only LedgerOp.reads := by
  induction ts generalizing seq with
  | nil => trivial
  | cons t rest ih =>
    refine ⟨trivial, fun r => Prog.Only.bind (by simp) fun present => ?_⟩
    split_ifs
    · exact ih _
    · exact Prog.Only.bind ⟨trivial, by simp⟩ fun _ => ih _

theorem materialise_reads (runId : GoalRunId) (batch : Option TransitionBatch) :
    (materialise runId batch).Only LedgerOp.reads := by
  cases batch with
  | none => trivial
  | some b => exact materialiseFrom_reads ..

end GoalLedgerStore

/-- A call that throws wrote nothing; one that returns wrote at most once, as `W` says. -/
def WritesOnce {α : Type} (W : LedgerEntry → Prop) (es : List LedgerEntry) :
    Except Thrown α → Prop
  | .error _ => writes es = []
  | .ok _ => ∃ e ∈ es, writes es = [e] ∧ W e

variable {α β : Type} {W : LedgerEntry → Prop} {es : List LedgerEntry}

theorem WritesOnce.reads_first {p : LedgerProg α} {f : α → LedgerProg β} {out : Except Thrown β}
    (hp : p.Only LedgerOp.reads) (h : Ends (p.bind f) es out)
    (hf : ∀ a es', es' <:+ es → Ends (f a) es' out → WritesOnce W es' out) :
    WritesOnce W es out := by
  rcases Ends.bind_iff.mp h with ⟨x, rfl, h₁⟩ | ⟨es₁, es₂, a, rfl, h₁, h₂⟩
  · exact writes_of_reads hp h₁
  have hw := hf a es₂ (List.suffix_append ..) h₂
  cases out with
  | error x => simpa [WritesOnce, writes_of_reads hp h₁] using hw
  | ok b =>
    obtain ⟨e, he, hes, hW⟩ := hw
    exact ⟨e, List.mem_append_right _ he, by simpa [writes_of_reads hp h₁] using hes, hW⟩

theorem WritesOnce.write_then {u : RunUpdate}
    {f : Option RunEnvelope × Option StoredLease → LedgerProg β} {out : Except Thrown β}
    (h : Ends ((GoalLedgerStore.update runId u).bind f) es out)
    (hf : ∀ i c inp o before after es', Ends (f o) es' out →
      (⟨i, c, .updateRun runId u, inp, .ok o, before, after⟩ : LedgerEntry) ∈ es →
      (∃ b, out = .ok b) ∧ writes es' = [] ∧
        W ⟨i, c, .updateRun runId u, inp, .ok o, before, after⟩) :
    WritesOnce W es out := by
  obtain ⟨i, c, inp, r, before, after, rest, rfl, hrest⟩ := Ends.call_iff.mp h
  cases r with
  | error x =>
    obtain ⟨rfl, rfl⟩ := Ends.raise_iff.mp hrest
    simp [WritesOnce, writes, wrote]
  | ok o =>
    obtain ⟨⟨b, rfl⟩, hw, hW⟩ := hf i c inp o before after rest hrest (List.mem_cons_self ..)
    refine ⟨_, List.mem_cons_self .., ?_, hW⟩
    rw [writes, List.filter_cons_of_pos rfl]
    exact congrArg _ hw

variable {lease : RunLease}

namespace GoalLedgerStore

/-- A commit returns after exactly one successful compare-and-set, and throws after none. -/
theorem commit_writes {expectedRevision : ℤ} {mutate : GoalRunLedger → Except Thrown GoalRunLedger}
    {ts : List TargetTransition} {out : Except Thrown GoalRunLedger}
    (h : Ends (commit runId expectedRevision lease mutate ts) es out)
    (hx : ∀ e ∈ es, ledgerExec e.op e.input e.before = (e.res, e.after)) :
    WritesOnce (fun e => commitsTo runId e = true) es out := by
  unfold commit at h
  split_ifs at h
  · obtain ⟨rfl, rfl⟩ := Ends.resume_iff.mp h
    rfl
  simp only [Prog.bind_def] at h
  refine .reads_first (requireEnvelope_reads runId) h fun before es₁ hs₁ h₁ => ?_
  refine .reads_first (by simp [LedgerOp.reads]) h₁ fun now es₂ hs₂ h₂ => ?_
  refine .reads_first (by simp) h₂ fun _ es₃ hs₃ h₃ => ?_
  split_ifs at h₃
  · obtain ⟨rfl, rfl⟩ := Ends.resume_iff.mp h₃
    rfl
  refine .reads_first (materialise_reads ..) h₃ fun _ es₄ hs₄ h₄ => ?_
  refine .write_then h₄ fun i c inp o bef aft es₅ h₅ hmem => ?_
  have hcas := hx _ ((hs₄.trans (hs₃.trans (hs₂.trans hs₁))).subset hmem)
  rcases ledgerExec_update hcas with ⟨x, hr, -⟩ | ⟨o', hu, hr, -, -⟩
  · cases hr
  cases hr
  obtain ⟨e, -, rfl⟩ := except_map_eq_ok.mp hu
  simp only at h₅
  rcases Ends.bind_iff.mp h₅ with ⟨x, -, h₆⟩ | ⟨es₆, es₇, _, rfl, h₆, h₇⟩
  · obtain ⟨_, hok⟩ := Ends.handle_ret h₆
    cases hok
  obtain ⟨rfl, rfl⟩ := Ends.ret_iff.mp h₇
  refine ⟨⟨_, rfl⟩, ?_, by simp [commitsTo, RunUpdate.isCommit]⟩
  have hreads : ((materialise runId e.lastBatch).handle fun _ => .ret ()).Only LedgerOp.reads :=
    (materialise_reads ..).handle fun _ => trivial
  simpa using writes_of_reads hreads h₆

theorem createRun_writes {graph : GoalGraphRevisionRecord} {createdBy : String}
    {runId : Option GoalRunId} {out : Except Thrown GoalRunLedger}
    (h : Ends (createRun graph createdBy runId) es out) : WritesOnce (fun _ => True) es out := by
  unfold createRun at h
  split_ifs at h
  · obtain ⟨rfl, rfl⟩ := Ends.resume_iff.mp h
    rfl
  simp only [Prog.bind_def] at h
  refine .reads_first (by cases runId <;> simp [runIdOr, LedgerOp.reads]) h fun id es₁ hs₁ h₁ => ?_
  split_ifs at h₁
  · obtain ⟨rfl, rfl⟩ := Ends.resume_iff.mp h₁
    rfl
  refine .reads_first (by simp [LedgerOp.reads]) h₁ fun now es₂ hs₂ h₂ => ?_
  refine .reads_first (by simp) h₂ fun ledger es₃ hs₃ h₃ => ?_
  refine .write_then h₃ fun i c inp o bef aft es₄ h₄ _ => ?_
  obtain ⟨rfl, rfl⟩ := Ends.ret_iff.mp h₄
  exact ⟨⟨_, rfl⟩, rfl, trivial⟩

theorem acquireLease_writes {holderId : String} {ttlMs : ℤ} {out : Except Thrown (Option RunLease)}
    (h : Ends (acquireLease runId holderId ttlMs) es out) : WritesOnce (fun _ => True) es out := by
  unfold acquireLease at h
  split_ifs at h
  · obtain ⟨rfl, rfl⟩ := Ends.resume_iff.mp h
    rfl
  · obtain ⟨rfl, rfl⟩ := Ends.resume_iff.mp h
    rfl
  refine .reads_first (requireEnvelope_reads runId) h fun _ es₁ hs₁ h₁ => ?_
  refine .write_then h₁ fun i c inp o bef aft es₂ h₂ _ => ?_
  obtain ⟨rfl, rfl⟩ := Ends.ret_iff.mp h₂
  exact ⟨⟨_, rfl⟩, rfl, trivial⟩

theorem renewLease_writes {ttlMs : ℤ} {out : Except Thrown RunLease}
    (h : Ends (renewLease lease ttlMs) es out)
    (hx : ∀ e ∈ es, ledgerExec e.op e.input e.before = (e.res, e.after)) :
    WritesOnce (fun _ => True) es out := by
  unfold renewLease at h
  split_ifs at h
  · obtain ⟨rfl, rfl⟩ := Ends.resume_iff.mp h
    rfl
  refine .reads_first (requireEnvelope_reads lease.runId) h fun _ es₁ hs₁ h₁ => ?_
  refine .write_then h₁ fun i c inp o bef aft es₂ h₂ hmem => ?_
  have hcas := hx _ (hs₁.subset hmem)
  rcases ledgerExec_update hcas with ⟨x, hr, -⟩ | ⟨o', hu, hr, -, -⟩
  · cases hr
  cases hr
  obtain ⟨e, he, rfl⟩ := except_map_eq_ok.mp hu
  obtain ⟨old, held, expiresAt, -, -, -, -, -, rfl⟩ := renewUpdate_ok he
  obtain ⟨rfl, rfl⟩ := Ends.ret_iff.mp h₂
  exact ⟨⟨_, rfl⟩, rfl, trivial⟩

/-- A release never throws after a write, and writes only the envelope of its own run. -/
theorem releaseLease_writes {out : Except Thrown Unit} (h : Ends (releaseLease lease) es out) :
    writes es = [] ∨ out = .ok () ∧ ∃ e ∈ es, writes es = [e] ∧
      e.op = .updateRun lease.runId (.release lease) := by
  unfold releaseLease at h
  simp only [Prog.bind_def] at h
  rcases Ends.bind_iff.mp h with ⟨x, -, h₁⟩ | ⟨es₁, es₂, env, rfl, h₁, h₂⟩
  · exact .inl (writes_of_reads (readEnvelope_reads _) h₁)
  have q := writes_of_reads (readEnvelope_reads _) h₁
  split at h₂
  · obtain ⟨rfl, rfl⟩ := Ends.ret_iff.mp h₂
    exact .inl (by simpa using q)
  split_ifs at h₂
  · obtain ⟨rfl, rfl⟩ := Ends.ret_iff.mp h₂
    exact .inl (by simpa using q)
  obtain ⟨i, c, inp, r, before, after, rest, rfl, hrest⟩ := Ends.call_iff.mp h₂
  cases r with
  | error x =>
    obtain ⟨rfl, rfl⟩ := Ends.raise_iff.mp hrest
    exact .inl (by rw [writes_append, q]; rfl)
  | ok o =>
    obtain ⟨rfl, rfl⟩ := Ends.ret_iff.mp hrest
    refine .inr ⟨rfl, _, List.mem_append_right _ (List.mem_cons_self ..), ?_, rfl⟩
    rw [writes_append, q]
    rfl

end GoalLedgerStore

/-! The fence. -/

def LeavesRuns (e : LedgerEntry) : Prop :=
  ∀ runId, e.after.runs.lookup runId = e.before.runs.lookup runId

theorem leavesRuns_of_quiet (hx : ledgerExec e.op e.input e.before = (e.res, e.after))
    (hw : wrote e = false) :
    LeavesRuns e := by
  rcases ledgerEntry_cases hx with ⟨-, hruns⟩ | ⟨i, c, id, u, inp, out, before, rfl, -, -⟩
  · exact fun runId => by rw [hruns]
  · cases hw

theorem leavesRuns_of_writes_nil (hx : ∀ e ∈ es, ledgerExec e.op e.input e.before = (e.res, e.after))
    (hw : writes es = []) : ∀ e ∈ es, LeavesRuns e := fun e he =>
  leavesRuns_of_quiet (hx e he) (by simpa using List.filter_eq_nil_iff.mp hw e he)

/-- `lease` is the stored one and unreleased. -/
def Holds (s : LedgerShared) (lease : RunLease) : Prop :=
  ∃ env held, s.runs.lookup lease.runId = some env ∧ env.lease = some held ∧
    held.epoch = lease.epoch ∧ held.holderId = lease.holderId ∧ held.released = false

theorem release_noop (hx : ledgerExec e.op e.input e.before = (e.res, e.after))
    (hop : e.op = .updateRun lease.runId (.release lease)) (hh : ¬ Holds e.before lease) :
    LeavesRuns e := by
  rcases ledgerEntry_cases hx with ⟨hw, -⟩ | ⟨i, c, id, u, inp, out, before, rfl, hu, hl⟩
  · exact leavesRuns_of_quiet hx hw
  cases hop
  obtain ⟨env, he, rfl⟩ := except_map_eq_ok.mp hu
  intro runId
  by_cases hid : runId = lease.runId
  · subst hid
    rw [hl]
    rcases releaseUpdate_ok he with h | ⟨old, held, _, hold, hlease, hep, hho, hre, -⟩
    · exact h
    · exact absurd ⟨old, held, hold, hlease, hep, hho, hre⟩ hh
  · exact LedgerShared.setRun_other _ _ hid

/-- What fencing promises of a run `runId` in a history. -/
structure Fenced (cfg : LedgerConfig) (runId : GoalRunId) : Prop where
  /-- Each successful compare-and-set adds one revision, everything else none. -/
  revision : ∀ e ∈ cfg.hist.entries, ∀ old, e.before.runs.lookup runId = some old →
    ∃ new, e.after.runs.lookup runId = some new ∧ new.ledger.ledgerRevision =
      old.ledger.ledgerRevision + if commitsTo runId e then 1 else 0
  /-- A commit goes through under the stored lease, live, with the newest epoch. -/
  fence : ∀ pre e post, cfg.hist.events = pre ++ .ran e :: post → commitsTo runId e = true →
    ∃ lease old held now, committedUnder e = some lease ∧ e.before.runs.lookup runId = some old ∧
      old.lease = some held ∧ held.holderId = lease.holderId ∧ held.epoch = lease.epoch ∧
      held.released = false ∧ e.input.now = some now ∧ now.1 < held.expiresAt.1 ∧
      lease.epoch ∈ issuedEpochs runId ⟨pre, e.before⟩ ∧
      ∀ epoch ∈ issuedEpochs runId ⟨pre, e.before⟩, epoch ≤ lease.epoch
  epochs : (issuedEpochs runId cfg.hist).Pairwise (· < ·)
  /-- A call that threw left every envelope as it was. -/
  rejected : ∀ i req x, cfg.threads[i]? = some ⟨req, some (.raise x)⟩ →
    ∀ e ∈ cfg.hist.entriesOf i, LeavesRuns e
  /-- A release writes by its update only, and an update that does not find the lease held changes
  nothing, whatever was read before it. -/
  noop : ∀ e ∈ cfg.hist.entries, ∀ lease, e.op = .updateRun lease.runId (.release lease) →
    ¬ Holds e.before lease → LeavesRuns e
  releases : ∀ i process lease, cfg.threads[i]? = some ⟨⟨process, .releaseLease lease⟩, some (.ret .done)⟩ →
    ∀ e ∈ cfg.hist.entriesOf i, e.op = .updateRun lease.runId (.release lease) ∨ LeavesRuns e
  quiet : ∀ e ∈ cfg.hist.entries, wrote e = false → LeavesRuns e
  /-- A commit that returned made one successful compare-and-set and no other write. -/
  returned : ∀ i process rev lease mutate ts l,
    cfg.threads[i]? = some ⟨⟨process, .commit runId rev lease mutate ts⟩, some (.ret (.run l))⟩ →
    ∃ e, writes (cfg.hist.entriesOf i) = [e] ∧ commitsTo runId e = true

theorem RunUpdate.apply_revision {u : RunUpdate} {now : JsDate}
    {out : Option RunEnvelope × Option StoredLease} (h : u.apply runId now (some old) = .ok out) :
    ∃ new, out.1 = some new ∧ new.ledger.ledgerRevision =
      old.ledger.ledgerRevision + if u.isCommit then 1 else 0 := by
  cases u with
  | create ledger =>
    simp only [RunUpdate.apply, except_map_eq_ok] at h
    obtain ⟨e, he, rfl⟩ := h
    cases (createUpdate_ok he).1
  | commit expectedRevision lease mutate transitions =>
    obtain ⟨e, he, rfl⟩ := except_map_eq_ok.mp h
    obtain ⟨_, draft, stampedAt, ⟨⟩, -, -, hrev, -, -, -, rfl⟩ := commitUpdate_ok he
    exact ⟨_, rfl, by simp [hrev, isCommit]⟩
  | acquire holderId ttlMs =>
    obtain ⟨e, he, rfl⟩ := except_map_eq_ok.mp h
    obtain ⟨_, ⟨⟩, rfl | ⟨lease, -, -, -, rfl⟩⟩ := acquireUpdate_ok he <;>
      exact ⟨_, rfl, by simp [isCommit]⟩
  | renew lease ttlMs =>
    obtain ⟨e, he, rfl⟩ := except_map_eq_ok.mp h
    obtain ⟨_, held, expiresAt, ⟨⟩, -, -, -, -, rfl⟩ := renewUpdate_ok he
    exact ⟨_, rfl, by simp [isCommit]⟩
  | release lease =>
    obtain ⟨e, he, rfl⟩ := except_map_eq_ok.mp h
    obtain rfl | ⟨_, held, expiresAt, ⟨⟩, -, -, -, -, rfl⟩ := releaseUpdate_ok he <;>
      exact ⟨_, rfl, by simp [isCommit]⟩

theorem commitsTo_quiet (h : wrote e = false) :
    commitsTo runId e = false := by
  obtain ⟨i, c, op, inp, r, before, after⟩ := e
  cases op with
  | updateRun id u =>
    cases r with
    | error x => rfl
    | ok out => cases h
  | _ => rfl

theorem revision_entry (hx : ledgerExec e.op e.input e.before = (e.res, e.after))
    (hold : e.before.runs.lookup runId = some old) :
    ∃ new, e.after.runs.lookup runId = some new ∧ new.ledger.ledgerRevision =
      old.ledger.ledgerRevision + if commitsTo runId e then 1 else 0 := by
  rcases ledgerEntry_cases hx with ⟨hw, hruns⟩ | ⟨i, c, id, u, inp, out, before, rfl, hu, hl⟩
  · exact ⟨old, by rw [hruns, hold], by simp [commitsTo_quiet hw]⟩
  by_cases hid : id = runId
  · subst hid
    simp only at hold
    rw [hold] at hu
    obtain ⟨new, hnew, hrev⟩ := RunUpdate.apply_revision hu
    exact ⟨new, hl.trans hnew, by simpa [commitsTo] using hrev⟩
  · refine ⟨old, ?_, by simp [commitsTo, hid]⟩
    simpa only [LedgerShared.setRun_other _ _ (Ne.symm hid)] using hold

theorem fence_entry {issued : List ℕ} (h : LeaseInv (e.before.runs.lookup runId) issued)
    (hx : ledgerExec e.op e.input e.before = (e.res, e.after)) (hc : commitsTo runId e = true) :
    ∃ lease old held now, committedUnder e = some lease ∧ e.before.runs.lookup runId = some old ∧
      old.lease = some held ∧ held.holderId = lease.holderId ∧ held.epoch = lease.epoch ∧
      held.released = false ∧ e.input.now = some now ∧ now.1 < held.expiresAt.1 ∧
      lease.epoch ∈ issued ∧ ∀ epoch ∈ issued, epoch ≤ lease.epoch := by
  rcases ledgerEntry_cases hx with ⟨hw, -⟩ | ⟨i, c, id, u, inp, out, before, rfl, hu, -⟩
  · rw [commitsTo_quiet hw] at hc
    cases hc
  simp only [commitsTo, Bool.and_eq_true, decide_eq_true_eq] at hc
  obtain ⟨rfl, hu'⟩ := hc
  cases u with
  | commit rev lease mutate ts =>
    obtain ⟨env, he, rfl⟩ := except_map_eq_ok.mp hu
    obtain ⟨old, _, now, hold, hnow, hcur, -⟩ := commitUpdate_ok he
    obtain ⟨-, held, hheld, hep, hho, hre, hexp⟩ := assertCurrentLease_ok hcur
    obtain ⟨hmax, hmem⟩ := h.held old held hold hheld
    refine ⟨lease, old, held, now, rfl, hold, hheld, hho, hep, hre, hnow, ?_, hep ▸ hmem, ?_⟩
    · simpa [hnow, JsDate.reached] using hexp
    · intro epoch hmem'
      rw [← hep, hmax]
      exact h.bounded old hold epoch hmem'
  | _ => cases hu'

theorem body_rejected {call : LedgerCall} {x : Thrown} (h : Ends call.body es (.error x))
    (hx : ∀ e ∈ es, ledgerExec e.op e.input e.before = (e.res, e.after)) : writes es = [] := by
  have map_error : ∀ {α : Type} {f : α → LedgerReply} {p : LedgerProg α},
      Ends (f <$> p) es (.error x) → Ends p es (.error x) := fun hp => by
    obtain ⟨r, hr, hp⟩ := Ends.map_iff.mp hp
    cases r <;> cases hr
    exact hp
  cases call with
  | createRun graph createdBy runId => exact GoalLedgerStore.createRun_writes (map_error h)
  | commit runId rev lease mutate ts => exact GoalLedgerStore.commit_writes (map_error h) hx
  | acquireLease runId holderId ttlMs => exact GoalLedgerStore.acquireLease_writes (map_error h)
  | renewLease lease ttlMs => exact GoalLedgerStore.renewLease_writes (map_error h) hx
  | releaseLease lease =>
    rcases GoalLedgerStore.releaseLease_writes (map_error h) with hw | ⟨hx, -⟩
    · exact hw
    · cases hx
  | getRun runId => exact writes_of_reads (GoalLedgerStore.getRun_reads _) (map_error h)
  | currentLease runId => exact writes_of_reads (GoalLedgerStore.currentLease_reads _) (map_error h)
  | transitions runId targetId =>
    exact writes_of_reads (GoalLedgerStore.transitions_reads _ _) (map_error h)

theorem ledger_fenced {cfg : LedgerConfig} (hr : Reach ledgerSystem emptyStore cfg)
    (runId : GoalRunId) : Fenced cfg runId := by
  have hx : ∀ i, ∀ e ∈ cfg.hist.entriesOf i, ledgerExec e.op e.input e.before = (e.res, e.after) :=
    fun i e he => ledger_executed hr (List.mem_of_mem_filter he)
  refine ⟨?_, ?_, ?_, ?_, ?_, ?_, ?_, ?_⟩
  · exact fun e he old hold => revision_entry (ledger_executed hr he) hold
  · intro pre e post hev hc
    obtain ⟨cfg₁, hr₁, hh, hexec, -⟩ := hr.ran hev
    have hinv := leaseInv_reach hr₁ runId
    rw [hh] at hinv
    exact fence_entry hinv (by simpa [ledgerSystem] using hexec) hc
  · exact (leaseInv_reach hr runId).increasing
  · intro i req x ht
    exact leavesRuns_of_writes_nil (hx i) (body_rejected (hr.ends (o := .error x) ht) (hx i))
  · exact fun e he lease hop hh => release_noop (ledger_executed hr he) hop hh
  · intro i process lease ht e he
    obtain ⟨r, -, hends⟩ := Ends.map_iff.mp (hr.ends (o := .ok .done) ht)
    rcases GoalLedgerStore.releaseLease_writes hends with hw | ⟨-, w, hw, hws, hop⟩
    · exact .inr (leavesRuns_of_writes_nil (hx i) hw e he)
    · by_cases hwe : wrote e = true
      · have : e ∈ writes (cfg.hist.entriesOf i) := List.mem_filter.mpr ⟨he, hwe⟩
        rw [hws, List.mem_singleton] at this
        exact .inl (this ▸ hop)
      · exact .inr (leavesRuns_of_quiet (hx i e he) (by simpa using hwe))
  · exact fun e he => leavesRuns_of_quiet (ledger_executed hr he)
  · intro i process rev lease mutate ts l ht
    obtain ⟨r, hrun, hends⟩ := Ends.map_iff.mp (hr.ends (o := .ok (.run l)) ht)
    cases r with
    | error x => cases hrun
    | ok l' =>
      obtain ⟨e, -, hws, hc⟩ := GoalLedgerStore.commit_writes hends (hx i)
      exact ⟨e, hws, hc⟩

/-! One run of the store: a run of a single target, its lease, and one commit. -/

def oneTarget : GoalGraphRevisionRecord where
  graphId := "g"
  projectId := "p"
  revision := 1
  definition := ⟨"one", ⟨10, 1, 1, 60, 0, true, none⟩,
    [⟨"t", [], 0, "shell", [], [], false, false⟩]⟩
  digest := "d"
  createdAt := ⟨0, epoch_valid⟩
  createdBy := "me"
  parentRevision := none

/-- The next command of thread `i`, when the clock shows `t`. -/
def stepAt (i : ℕ) (t : ℤ) : Action LedgerRequest ℕ LedgerInput :=
  .run i ⟨JsDate.ofMs t, "", none⟩

def leaseOne : RunLease := ⟨"run-1", "a", 1, ⟨1005, by decide⟩⟩

def acquired : List (Action LedgerRequest ℕ LedgerInput) :=
  [.begin ⟨0, .createRun oneTarget "me" (some "run-1")⟩, stepAt 0 0, stepAt 0 0,
    .begin ⟨0, .acquireLease "run-1" "a" 1000⟩, stepAt 1 5, stepAt 1 5]

/-- The update of a release that finds a later lease. -/
def superseded (e : LedgerEntry) : Bool :=
  match e.op with
  | .updateRun id (.release lease) => (e.before.runs.lookup id).any fun env =>
    env.lease.any fun held => lease.epoch < held.epoch
  | _ => false

/-- A commit; then a release reads its lease as held, which expires and goes to another holder before
the release's update. -/
def supersededRelease : List (Action LedgerRequest ℕ LedgerInput) :=
  acquired ++ [.begin ⟨0, .commit "run-1" 1 leaseOne (fun l => .ok { l with status := .running }) []⟩,
    stepAt 2 6, stepAt 2 6, stepAt 2 7, .begin ⟨0, .releaseLease leaseOne⟩, stepAt 3 8,
    .begin ⟨1, .acquireLease "run-1" "b" 1000⟩, stepAt 4 2000, stepAt 4 2000, stepAt 3 2001]

theorem ledger_fenced_commit : ∃ cfg, Reach ledgerSystem emptyStore cfg ∧
    cfg.hist.entries.any (commitsTo "run-1") = true ∧ cfg.hist.entries.any superseded = true ∧
    Fenced cfg "run-1" := by
  have h : ∃ cfg, schedule ledgerSystem supersededRelease (.start emptyStore) = some cfg ∧
      cfg.hist.entries.any (commitsTo "run-1") = true ∧
      cfg.hist.entries.any superseded = true := ⟨_, rfl, by decide, by decide⟩
  obtain ⟨cfg, hrun, hcommit, hlate⟩ := h
  have hr := schedule_reach .start hrun
  exact ⟨cfg, hr, hcommit, hlate, ledger_fenced hr "run-1"⟩

end Wazir.Goals
