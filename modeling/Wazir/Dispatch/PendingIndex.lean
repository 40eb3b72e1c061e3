import Wazir.Async.Local
import Wazir.Dispatch.Fencing

/-! The pending index. Record and index entry are two keys; a dispatch writes the entry first.
An entry that is deleted late, after the id was dispatched again, leaves a pending record that
nobody lists. As long as no delete hits what a newer dispatch wrote, every record without an
outcome has its entry. -/

namespace Wazir.Dispatch

open Wazir.Async

def indexed (id : RequestId) (s : DispatchShared) : Bool := (s.pending.lookup id).isSome

def dropsIndex (id : RequestId) (e : DispatchEntry) : Bool :=
  match e.op, e.res with
  | .deletePending k, .ok _ => k = id
  | _, _ => false

/-- A dispatch of `id` has made its first write. -/
def opens (id : RequestId) (e : DispatchEntry) : Bool :=
  match e.op, e.res with
  | .putPending k _, .ok _ => k = id && e.call.call.dispatches
  | _, _ => false

def triesCreate : DispatchOp → Bool
  | .updateDispatch _ (.create _ _) => true
  | _ => false

/-- The dispatches of `id` that are between their two writes. -/
def between (id : RequestId) (h : DispatchHist) : List ℕ :=
  (h.entries.filter fun e => opens id e && e.call.process ∉ h.dead &&
    !(h.entriesOf e.thread).any fun e' => triesCreate e'.op).map Entry.thread

/-- The entry is there, or no longer needed. -/
def Covered (id : RequestId) (s : DispatchShared) : Prop :=
  indexed id s = true ∨ ∃ r, recordAt id s = some r ∧ r.outcome.isSome

/-- A delete that goes through finds an outcome, or nothing that a dispatch has begun to write;
a record goes only while a dispatch between its writes still has its entry. -/
def carefulDelete (h : DispatchHist) (e : DispatchEntry) : Bool :=
  match e.op, e.res with
  | .deletePending id, .ok _ =>
    match recordAt id e.before with
    | some r => r.outcome.isSome
    | none => between id h = []
  | .deleteDispatch id, .ok _ =>
    match recordAt id e.before with
    | some r => r.outcome.isSome && (indexed id e.before || between id h = [])
    | none => true
  | _, _ => true

section Entries

variable {id : RequestId} {e : DispatchEntry}
  (hx : dispatchExec e.op e.input e.before = some (e.res, e.after))

include hx

theorem indexed_kept (hi : indexed id e.before = true) (hd : dropsIndex id e = false) :
    indexed id e.after = true := by
  obtain ⟨i, c, op, inp, r, before, after⟩ := e
  cases op with
  | putPending k entry =>
    simp only [dispatchExec] at hx
    split at hx <;> cases hx
    · exact hi
    · by_cases hk : k = id
      · simp [indexed, hk]
      · simpa [indexed, AList.lookup_insert_ne (Ne.symm hk)] using hi
  | deletePending k =>
    simp only [dispatchExec] at hx
    split at hx <;> cases hx
    · exact hi
    · have hk : k ≠ id := by simpa [dropsIndex] using hd
      simpa [indexed, AList.lookup_erase_ne (Ne.symm hk)] using hi
  | _ =>
    have same : after.pending = before.pending := dispatchExec_pending hx (by simp) (by simp)
    simpa only [indexed, same] using hi

theorem opens_indexed (ho : opens id e = true) : indexed id e.after = true := by
  obtain ⟨i, c, op, inp, r, before, after⟩ := e
  cases op with
  | putPending k entry =>
    simp only [dispatchExec] at hx
    split at hx <;> cases hx
    · cases ho
    · simp only [opens, Bool.and_eq_true, decide_eq_true_eq] at ho
      simp [indexed, ho.1]
  | _ => simp [opens] at ho

/-- Only a creation brings a record without an outcome. -/
theorem unfinished_before (hc : creates id e = false) {r : DurableDispatch}
    (hr : recordAt id e.after = some r) (ho : r.outcome = none) :
    ∃ r₀, recordAt id e.before = some r₀ ∧ r₀.outcome = none := by
  rcases dispatchEntry_cases id hx with ⟨-, -, hs⟩ | ⟨u, out, ha, -, hch, hs⟩ | ⟨-, -, hs⟩
  · exact ⟨r, hs.symm.trans hr, ho⟩
  · cases hs.symm.trans hr
    generalize recordAt id e.before = before at hch
    cases hch with
    | created => simp [creates, ha] at hc
    | unchanged u old step => exact ⟨old, rfl, ho⟩
    | cancelled => cases ho
    | abandoned => cases ho
    | committed => cases ho
    | _ => exact ⟨_, rfl, by assumption⟩
  · cases hs.symm.trans hr

theorem deletes_not_drops (hd : deletes id e = true) : dropsIndex id e = false := by
  obtain ⟨i, c, op, inp, r, before, after⟩ := e
  cases op with
  | deleteDispatch k => rfl
  | _ => simp [deletes] at hd

theorem covered_kept (hc : Covered id e.before)
    (index : dropsIndex id e = true → ∃ r, recordAt id e.before = some r ∧ r.outcome.isSome)
    (record : deletes id e = true → recordAt id e.before = none ∨ indexed id e.before = true) :
    Covered id e.after := by
  have outcome : ∀ r, recordAt id e.before = some r → r.outcome.isSome → Covered id e.after := by
    intro r hr ho
    rcases outcome_kept hx hr ho with ⟨hd, -⟩ | hs
    · rcases record hd with hnone | hi
      · rw [hr] at hnone
        cases hnone
      · exact .inl (indexed_kept hx hi (deletes_not_drops hx hd))
    · exact .inr ⟨r, hs, ho⟩
  rcases hc with hi | ⟨r, hr, ho⟩
  · by_cases hd : dropsIndex id e = true
    · obtain ⟨r, hr, ho⟩ := index hd
      exact outcome r hr ho
    · exact .inl (indexed_kept hx hi (by simpa using hd))
  · exact outcome r hr ho

end Entries

variable {e : DispatchEntry}

theorem creates_op {id : RequestId} (hc : creates id e = true) :
    ∃ computerId request, e.op = .updateDispatch id (.create computerId request) := by
  unfold creates at hc
  split at hc
  · rename_i ha
    exact ⟨_, _, accepted_op ha⟩
  · cases hc

variable {h : DispatchHist}

theorem careful_drop {id : RequestId} (hc : carefulDelete h e = true) (hd : dropsIndex id e = true) :
    (∃ r, recordAt id e.before = some r ∧ r.outcome.isSome) ∨
      recordAt id e.before = none ∧ between id h = [] := by
  obtain ⟨i, c, op, inp, r, before, after⟩ := e
  cases op with
  | deletePending k =>
    cases r with
    | error x => cases hd
    | ok u =>
      obtain rfl : k = id := by simpa [dropsIndex] using hd
      simp only [carefulDelete] at hc
      split at hc
      · exact .inl ⟨_, by assumption, hc⟩
      · exact .inr ⟨by assumption, by simpa using hc⟩
  | _ => simp [dropsIndex] at hd

theorem careful_delete {id : RequestId} (hc : carefulDelete h e = true) (hd : deletes id e = true) :
    recordAt id e.before = none ∨ (∃ r, recordAt id e.before = some r ∧ r.outcome.isSome) ∧
      (indexed id e.before = true ∨ between id h = []) := by
  obtain ⟨i, c, op, inp, r, before, after⟩ := e
  cases op with
  | deleteDispatch k =>
    cases r with
    | error x => cases hd
    | ok u =>
      obtain rfl : k = id := by simpa [deletes] using hd
      simp only [carefulDelete] at hc
      split at hc
      · simp only [Bool.and_eq_true, Bool.or_eq_true, decide_eq_true_eq] at hc
        exact .inr ⟨⟨_, by assumption, hc.1⟩, hc.2⟩
      · exact .inl (by assumption)
  | _ => simp [deletes] at hd

/-! The contract: a dispatch between its writes relies on its entry. -/

/-- Thread `i` is between the writes of a dispatch of `id`. -/
def Between (id : RequestId) (h : DispatchHist) (i : ℕ) (c : DispatchRequest) : Prop :=
  c.process ∉ h.dead ∧ (∃ e ∈ h.entriesOf i, opens id e = true ∧ e.call = c) ∧
    ∀ e ∈ h.entriesOf i, triesCreate e.op = false

theorem Between.mem {id : RequestId} {i : ℕ} {c : DispatchRequest} (hb : Between id h i c) :
    i ∈ between id h := by
  obtain ⟨alive, ⟨e, he, ho, rfl⟩, hnone⟩ := hb
  obtain ⟨hmem, hthread⟩ := List.mem_filter.mp he
  have hthread : e.thread = i := by simpa using hthread
  subst hthread
  refine List.mem_map.mpr ⟨e, List.mem_filter.mpr ⟨hmem, ?_⟩, rfl⟩
  simpa [ho, alive] using hnone

/-- Every record without an outcome has its entry. -/
def Indexed (s : DispatchShared) : Prop :=
  ∀ id r, recordAt id s = some r → r.outcome = none → indexed id s = true

def indexContract : Contract DispatchOp DispatchRes DispatchRequest ℕ DispatchInput DispatchShared where
  Ok h := h.Always fun h e => carefulDelete h e = true
  Inv h := Indexed h.shared
  Rely i c h h' := h'.entriesOf i = h.entriesOf i ∧ (c.process ∉ h.dead → c.process ∉ h'.dead ∧
    ∀ id, Between id h i c → Covered id h.shared → Covered id h'.shared)

/-- A command restores the index, a creation if its entry is there. -/
theorem index_step {i : ℕ} {c : DispatchRequest} {op : DispatchOp} {inp : DispatchInput}
    {r : DispatchRes op} {s : DispatchShared} (hinv : Indexed h.shared)
    (hx : dispatchExec op inp h.shared = some (r, s))
    (hok : indexContract.Ok (h.ran i c op inp r s))
    (hcreate : ∀ id computerId request, op = .updateDispatch id (.create computerId request) →
      Covered id h.shared) :
    Indexed s ∧ ∀ j d, j ≠ i → indexContract.Rely j d h (h.ran i c op inp r s) := by
  set e : DispatchEntry := ⟨i, c, op, inp, r, h.shared, s⟩ with he
  have hok : (h.push (.ran e) s).Always fun h e => carefulDelete h e = true := hok
  have careful : carefulDelete h e = true := hok.last rfl
  refine ⟨fun id r' hr' ho' => ?_, fun j d hj => ?_⟩
  · by_cases hc : creates id e = true
    · have hnone := creates_absent hx hc
      obtain ⟨computerId, request, hop⟩ := creates_op hc
      rcases hcreate id computerId request hop with hi | ⟨r₀, hr₀, -⟩
      · refine indexed_kept hx (e := e) hi ?_
        cases hop
        rfl
      · cases hnone.symm.trans hr₀
    · obtain ⟨r₀, hr₀, ho₀⟩ := unfinished_before hx (by simpa using hc) hr' ho'
      refine indexed_kept hx (e := e) (hinv id r₀ hr₀ ho₀) ?_
      by_contra hd
      rcases careful_drop careful (by simpa using hd) with ⟨r₁, hr₁, ho₁⟩ | ⟨hnone, -⟩
      · cases hr₀.symm.trans hr₁
        simp [ho₀] at ho₁
      · cases hr₀.symm.trans hnone
  · refine ⟨by simp [Hist.ran, Hist.entriesOf_push_ran, Ne.symm hj], fun alive => ⟨by
      simpa [Hist.ran] using alive, fun id hb hcov => ?_⟩⟩
    have hne : between id h ≠ [] := List.ne_nil_of_mem hb.mem
    refine covered_kept hx (e := e) hcov (fun hd => ?_) (fun hd => ?_)
    · rcases careful_drop careful hd with hr | ⟨-, hnone⟩
      · exact hr
      · exact absurd hnone hne
    · rcases careful_delete careful hd with hnone | ⟨-, hi | hnone⟩
      · exact .inl hnone
      · exact .inr hi
      · exact absurd hnone hne

section Threads

variable {i : ℕ} {c : DispatchRequest} {h : DispatchHist}

/-- The thread is alive and has not tried to create a record. -/
def Unwritten (i : ℕ) (c : DispatchRequest) (h : DispatchHist) : Prop :=
  c.process ∉ h.dead ∧ ∀ e ∈ h.entriesOf i, triesCreate e.op = false

theorem Unwritten.later {h' : DispatchHist} (hr : indexContract.Rely i c h h')
    (hu : Unwritten i c h) : Unwritten i c h' := by
  obtain ⟨hent, hlive⟩ := hr
  exact ⟨(hlive hu.1).1, by rw [hent]; exact hu.2⟩

theorem Unwritten.ran {o : DispatchOp} {a : DispatchInput} {r : DispatchRes o}
    {s : DispatchShared} (hop : triesCreate o = false) (hu : Unwritten i c h) :
    Unwritten i c (h.ran i c o a r s) := by
  refine ⟨by simpa [Hist.ran] using hu.1, fun e he => ?_⟩
  simp only [Hist.ran, Hist.entriesOf_push_ran, if_true, List.mem_append, List.mem_singleton] at he
  rcases he with he | rfl
  · exact hu.2 e he
  · exact hop

theorem uncreating_step (op : DispatchOp) (inp : DispatchInput) (r : DispatchRes op)
    (s : DispatchShared) (hop : triesCreate op = false) (hinv : indexContract.Inv h)
    (hx : dispatchSystem.exec op inp h.shared = some (r, s))
    (hok : indexContract.Ok (h.ran i c op inp r s)) : indexContract.Inv (h.ran i c op inp r s) ∧
      ∀ j d, j ≠ i → indexContract.Rely j d h (h.ran i c op inp r s) :=
  index_step hinv hx hok fun id computerId request heq => by
    subst heq
    cases hop

theorem triesCreate_of_plain (op : DispatchOp) (hp : plain op) : triesCreate op = false := by
  cases op with
  | updateDispatch id u =>
    cases u with
    | create computerId request => cases hp
    | _ => rfl
  | _ => rfl

theorem plain_safe {α : Type} {p : DispatchProg α} (hp : p.Only plain) (hu : Unwritten i c h) :
    Safe dispatchSystem indexContract i c (fun _ h => Unwritten i c h) p h :=
  Safe.of_only_keeps (fun _ op inp r s hop => uncreating_step op inp r s hop)
    (fun _ _ hr => Unwritten.later hr) (fun _ _ _ _ _ hop => Unwritten.ran hop)
    (hp.mono triesCreate_of_plain) hu

/-- The two writes. -/
theorem writes_safe (d : TaskDispatcher) (computerId : ComputerId)
    (request : WorkerExecutionRequest) (t : ℤ) (hc : c.call.dispatches = true)
    (hu : Unwritten i c h) : Safe dispatchSystem indexContract i c (fun _ _ => True)
      ((TaskDispatcher.putPending request.requestId ⟨computerId, t⟩).bind fun _ =>
        (TaskDispatcher.update request.requestId (.create computerId request)).bind fun record =>
          (d.setRecord request.requestId record.1).bind fun _ =>
            .ret TaskDispatcher.DispatchResult.ok) h := by
  intro h₁ inp r s hrely hinv hx hok
  have hu₁ := Unwritten.later hrely hu
  obtain ⟨hinv₂, hothers⟩ := uncreating_step _ inp r s rfl hinv hx hok
  refine ⟨hinv₂, hothers, ?_⟩
  cases r with
  | error x => trivial
  | ok u =>
    set e : DispatchEntry := ⟨i, c, .putPending request.requestId ⟨computerId, t⟩, inp, .ok u,
      h₁.shared, s⟩ with he
    have ho : opens request.requestId e = true := by
      rw [he]
      simp [opens, hc]
    have hcov : Covered request.requestId s := .inl (opens_indexed (e := e) hx ho)
    intro h₂ inp₂ r₂ s₂ hrely₂ hinv₃ hx₂ hok₂
    have hx₂ : dispatchExec (.updateDispatch request.requestId (.create computerId request)) inp₂
      h₂.shared = some (r₂, s₂) := hx₂
    have hu₂ := Unwritten.ran (o := .putPending request.requestId ⟨computerId, t⟩) (a := inp)
      (r := .ok u) (s := s) rfl hu₁
    have hmem : e ∈ (h₁.ran i c (.putPending request.requestId ⟨computerId, t⟩) inp (.ok u) s).entriesOf i := by
      simp [Hist.ran, Hist.entriesOf_push_ran, he]
    have hb : Between request.requestId
        (h₁.ran i c (.putPending request.requestId ⟨computerId, t⟩) inp (.ok u) s) i c :=
      ⟨hu₂.1, ⟨e, hmem, ho, rfl⟩, hu₂.2⟩
    obtain ⟨hinv₄, hothers₂⟩ := index_step hinv₃ hx₂ hok₂ fun id _ _ heq => by
      cases heq
      exact (hrely₂.2 hu₂.1).2 _ hb hcov
    refine ⟨hinv₄, hothers₂, ?_⟩
    cases r₂ with
    | error x => trivial
    | ok out =>
      refine (Safe.of_only (fun _ op inp r s hop => uncreating_step op inp r s hop)
        (p := (d.setRecord request.requestId out.1).bind fun _ =>
          .ret TaskDispatcher.DispatchResult.ok) ⟨rfl, fun _ => trivial⟩ _)

theorem dispatch_safe (d : TaskDispatcher) (computerId : ComputerId)
    (request : WorkerExecutionRequest) (hc : c.call.dispatches = true) (hu : Unwritten i c h) :
    Safe dispatchSystem indexContract i c (fun _ _ => True) (d.dispatch computerId request) h := by
  refine Safe.bind (plain_safe ⟨trivial, fun _ => Prog.only_resume⟩ hu) (fun _ h₁ hu₁ => ?_)
    fun _ _ _ => trivial
  refine Safe.bind (plain_safe (TaskDispatcher.refresh_plain d) hu₁) (fun _ h₂ hu₂ => ?_)
    fun _ _ _ => trivial
  refine Safe.bind (plain_safe ⟨trivial, fun _ => trivial⟩ hu₂) (fun records h₃ hu₃ => ?_)
    fun _ _ _ => trivial
  split_ifs
  · trivial
  · refine Safe.settle (R := fun _ _ => True) ?_ fun out h₄ _ => ?_
    · exact Safe.bind (plain_safe ⟨trivial, fun _ => trivial⟩ hu₃)
        (fun t h₄ hu₄ => writes_safe d computerId request t hc hu₄) fun _ _ _ => trivial
    · cases out with
      | ok result => trivial
      | error e =>
        dsimp only
        split_ifs <;> trivial

theorem call_safe (hu : Unwritten i c h) : Safe dispatchSystem indexContract i c (fun _ _ => True)
    (dispatchSystem.body c) h := by
  obtain ⟨process, d, call⟩ := c
  have uncreating (p : DispatchProg DispatchReply) (hp : p.Only call.may)
      (hc : call.dispatches = false) :
      Safe dispatchSystem indexContract i ⟨process, d, call⟩ (fun _ _ => True) p h := by
    refine Safe.of_only (fun _ op inp r s hop => uncreating_step op inp r s hop) (hp.mono ?_) h
    intro op hop
    cases op with
    | updateDispatch id u =>
      cases u with
      | create computerId request =>
        have : call.dispatches = true := hop
        simp [hc] at this
      | _ => rfl
    | _ => rfl
  cases call with
  | dispatch computerId request =>
    exact Safe.bind (dispatch_safe d computerId request rfl hu) (fun _ _ _ => trivial)
      fun _ _ _ => trivial
  | dispatchRemote computerId request timeoutMs polls =>
    refine Safe.bind (R := fun _ _ => True) (Safe.bind (dispatch_safe d computerId request rfl hu)
      (fun result h₁ _ => ?_) fun _ _ _ => trivial) (fun _ _ _ => trivial) fun _ _ _ => trivial
    cases result with
    | busy reason => trivial
    | ok =>
      refine Safe.of_only (fun _ op inp r s hop => uncreating_step op inp r s hop)
        (Prog.Only.mono triesCreate_of_plain ?_) h₁
      exact Prog.Only.bind ⟨trivial, fun _ => Prog.only_resume⟩ fun _ =>
        Prog.Only.bind ⟨trivial, fun _ => trivial⟩ fun _ => TaskDispatcher.pollFrom_plain _ _ _ _ _
  | _ => exact uncreating _ (DispatchCall.body_may d _) rfl

end Threads

theorem indexContract_upheld : indexContract.Upheld dispatchSystem fun _ _ _ _ => True where
  okPrefix h ev s hok :=
    (show (h.push ev s).Always fun h e => carefulDelete h e = true from hok).past
  refl _ _ _ := ⟨rfl, fun alive => ⟨alive, fun _ _ hc => hc⟩⟩
  trans i c h₁ h₂ h₃ a b := by
    refine ⟨b.1.trans a.1, fun alive => ?_⟩
    obtain ⟨alive₂, hcov⟩ := a.2 alive
    obtain ⟨alive₃, hcov₂⟩ := b.2 alive₂
    refine ⟨alive₃, fun id hb hc => hcov₂ id ?_ (hcov id hb hc)⟩
    exact ⟨alive₂, by rw [a.1]; exact hb.2.1, by rw [a.1]; exact hb.2.2⟩
  began := by
    rintro h i c s hinv hfresh alive ⟨⟩ -
    refine ⟨hinv, fun j d _ => ⟨by simp, fun alive => ⟨by simpa using alive, fun _ _ hc => hc⟩⟩,
      call_safe ⟨by simpa [dispatchSystem] using alive, ?_⟩⟩
    intro e he
    rw [Hist.entriesOf_push_began, hfresh] at he
    cases he
  crashed := by
    intro h p hinv _
    refine ⟨hinv, fun j d hd => ⟨by simp, fun alive => ⟨?_, fun _ _ hc => hc⟩⟩⟩
    rw [Hist.dead_push_crashed, List.mem_append, List.mem_singleton]
    rintro (hdead | heq)
    · exact alive hdead
    · exact hd heq

theorem indexed_reach {cfg : DispatchConfig} (hr : Reach dispatchSystem emptyDispatches cfg)
    (careful : cfg.hist.Always fun h e => carefulDelete h e = true) : Indexed cfg.hist.shared := by
  refine (indexContract_upheld.run ?_ hr careful).1
  intro id r hr
  cases hr

/-! What a dispatch that succeeded left behind. -/

theorem dispatch_created {d : TaskDispatcher} {computerId : ComputerId}
    {request : WorkerExecutionRequest} {es : List DispatchEntry}
    (h : Ends (d.dispatch computerId request) es (.ok .ok)) :
    ∃ es₁ e es₂, es = es₁ ++ e :: es₂ ∧ creates request.requestId e = true ∧
      ∀ e' ∈ es₂, ∃ ident r, e'.op = .setRecord ident request.requestId r := by
  rcases Ends.bind_iff.mp h with ⟨x, hx, -⟩ | ⟨es₁, es₂, _, rfl, -, h₁⟩
  · cases hx
  rcases Ends.bind_iff.mp h₁ with ⟨x, hx, -⟩ | ⟨es₃, es₄, _, rfl, -, h₂⟩
  · cases hx
  rcases Ends.bind_iff.mp h₂ with ⟨x, hx, -⟩ | ⟨es₅, es₆, records, rfl, -, h₃⟩
  · cases hx
  split_ifs at h₃
  · cases (Ends.ret_iff.mp h₃).2
  obtain ⟨es₇, es₈, mid, rfl, hwrites, hret⟩ := Ends.settle_iff.mp h₃
  cases mid with
  | error x =>
    dsimp only at hret
    split_ifs at hret
    · cases (Ends.ret_iff.mp hret).2
    · cases (Ends.raise_iff.mp hret).2
  | ok result =>
    obtain ⟨rfl, hres⟩ := Ends.ret_iff.mp hret
    cases hres
    obtain ⟨i, c, inp, t, b, a, es₉, rfl, h₄⟩ := Ends.call_iff.mp hwrites
    obtain ⟨i', c', inp', r, b', a', es₁₀, rfl, h₅⟩ := Ends.call_iff.mp h₄
    cases r with
    | error x => cases (Ends.raise_iff.mp h₅).2
    | ok u =>
      obtain ⟨j, k, inp'', r', b'', a'', es₁₁, rfl, h₆⟩ := Ends.call_iff.mp h₅
      cases r' with
      | error x => cases (Ends.raise_iff.mp h₆).2
      | ok out =>
        obtain ⟨j', k', inp₃, u', b₃, a₃, es₁₂, rfl, h₇⟩ := Ends.call_iff.mp h₆
        obtain ⟨rfl, -⟩ := Ends.ret_iff.mp h₇
        refine ⟨es₁ ++ (es₃ ++ (es₅ ++ [⟨i, c, .now, inp, t, b, a⟩,
          ⟨i', c', .putPending request.requestId ⟨computerId, t⟩, inp', .ok u, b', a'⟩])),
          ⟨j, k, .updateDispatch request.requestId (.create computerId request), inp'',
            .ok out, b'', a''⟩, _, by simp; rfl, by simp [creates, accepted], ?_⟩
        simp

/-- The ids that a listing of the index returned. -/
def listed (e : DispatchEntry) : Option (List RequestId) :=
  match e.op, e.res with
  | .listPending, .ok l => some (l.map Prod.fst)
  | _, _ => none

theorem listed_indexed (hx : dispatchExec e.op e.input e.before = some (e.res, e.after))
    {ids : List RequestId} (hl : listed e = some ids) {id : RequestId}
    (hi : indexed id e.before = true) : id ∈ ids := by
  obtain ⟨i, c, op, inp, r, before, after⟩ := e
  cases op with
  | listPending =>
    cases r with
    | error x => cases hl
    | ok l =>
      cases hl
      simp only [dispatchExec, Option.some.injEq, Prod.mk.injEq] at hx
      rw [← guarded_ok hx.1]
      have hmem : id ∈ before.pending.keys := AList.mem_keys.mp (AList.lookup_isSome.mp hi)
      simpa [entriesList, AList.keys, List.keys] using hmem
  | _ => cases hl

/-- No pending dispatch is forgotten. -/
structure Remembered (cfg : DispatchConfig) : Prop where
  indexed : ∀ id r, recordAt id cfg.hist.shared = some r → r.outcome = none →
    indexed id cfg.hist.shared = true
  /-- So whoever lists the index, at any time, sees every pending record. -/
  listed : ∀ e ∈ cfg.hist.entries, ∀ ids, listed e = some ids →
    ∀ id r, recordAt id e.before = some r → r.outcome = none → id ∈ ids
  /-- A dispatch that returned ok created a record, which is there until it has an outcome. -/
  recorded : ∀ i process d computerId request,
    HasReturned dispatchSystem emptyDispatches cfg i ⟨process, d, .dispatch computerId request⟩
      (.dispatched .ok) →
    ∃ pre e post, cfg.hist.events = pre ++ .ran e :: post ∧ e.thread = i ∧
      creates request.requestId e = true ∧
      ((recordAt request.requestId cfg.hist.shared).isSome ∨ ∃ e' r, .ran e' ∈ post ∧
        deletes request.requestId e' = true ∧ recordAt request.requestId e'.before = some r ∧
        r.outcome.isSome)

theorem created_kept {cfg : DispatchConfig} (hr : Reach dispatchSystem emptyDispatches cfg)
    (careful : cfg.hist.Always fun h e => carefulDelete h e = true) {id : RequestId}
    {pre post : List (Event DispatchOp DispatchRes DispatchRequest ℕ DispatchInput DispatchShared)}
    (he : cfg.hist.events = pre ++ .ran e :: post) (hc : creates id e = true) :
    (recordAt id cfg.hist.shared).isSome ∨ ∃ e' r, .ran e' ∈ post ∧ deletes id e' = true ∧
      recordAt id e'.before = some r ∧ r.outcome.isSome := by
  obtain ⟨cfg₂, hr₂, hh, hlater⟩ := hr.ran_after he
  obtain ⟨post', hpost, hkept⟩ := record_kept id hr₂ hlater
  have hpost : post' = post := by
    rw [hh, he] at hpost
    simpa using hpost.symm
  subst hpost
  have hthere : (recordAt id cfg₂.hist.shared).isSome := by
    rw [hh]
    obtain ⟨_, _, _, hx, -⟩ := hr.ran he
    rcases dispatchEntry_cases id hx with ⟨ha, -, -⟩ | ⟨u, out, -, -, -, hs⟩ | ⟨ha, -, -⟩
    · simp [(not_creates_of_not_accepted ha).1] at hc
    · exact hs ▸ rfl
    · simp [(not_creates_of_not_accepted ha).1] at hc
  by_cases hd : ∀ e', .ran e' ∈ post' → deletes id e' = true → recordAt id e'.before = none
  · exact .inl (hkept hd hthere)
  · push Not at hd
    obtain ⟨e', hmem, hdel, hsome⟩ := hd
    obtain ⟨mid, post₂, hsplit⟩ := List.append_of_mem hmem
    have := careful (pre ++ .ran e :: mid) e' post₂ (by rw [he, hsplit]; simp)
    rcases careful_delete this hdel with hnone | ⟨⟨r, hr', ho⟩, -⟩
    · exact absurd hnone hsome
    · exact .inr ⟨e', r, hmem, hdel, hr', ho⟩

/-- As long as every delete that goes through is careful, every pending dispatch is listed. -/
theorem pending_remembered {cfg : DispatchConfig} (hr : Reach dispatchSystem emptyDispatches cfg)
    (careful : cfg.hist.Always fun h e => carefulDelete h e = true) : Remembered cfg := by
  refine ⟨indexed_reach hr careful, fun e he ids hl id r hrec ho => ?_,
    fun i process d computerId request hret => ?_⟩
  · obtain ⟨pre, post, hsplit⟩ := Hist.mem_entries he
    obtain ⟨cfg₁, hr₁, hh, hx, -⟩ := hr.ran hsplit
    refine listed_indexed hx hl ?_
    have := indexed_reach hr₁ (hh ▸ careful.upTo hsplit)
    rw [hh] at this
    exact this id r hrec ho
  · obtain ⟨cfg₀, hr₀, hlater, hret⟩ := hret
    obtain ⟨r, hres, hends⟩ := Ends.map_iff.mp
      (hr₀.ends (o := .ok (.dispatched .ok)) (Config.returned_eq_some hret))
    cases r with
    | error x => cases hres
    | ok result =>
      cases hres
      obtain ⟨es₁, e, es₂, hes, hc, -⟩ := dispatch_created hends
      obtain ⟨pre, post, hsplit, hthread, -, -⟩ := Hist.split_entriesOf_append hes
      obtain ⟨later, hevents⟩ := Step.events_prefix hlater
      rw [hsplit, List.append_assoc, List.cons_append] at hevents
      exact ⟨pre, e, post ++ later, hevents.symm, hthread, hc,
        created_kept hr careful hevents.symm hc⟩

/-! Two runs: the request of before, completed and pruned with care; and a dispatch that crashed
between its writes, whose index entry is found orphaned, dispatched again, and only then deleted. -/

theorem pending_remembered_completed : ∃ cfg, Reach dispatchSystem emptyDispatches cfg ∧
    cfg.threads[5]? = some ⟨⟨0, dispatcherOne, .dispatch "pc" requestOne⟩,
      some (.ret (.dispatched .ok))⟩ ∧ Remembered cfg := by
  have h : ∃ cfg, schedule dispatchSystem claimedTwice (.start emptyDispatches) = some cfg ∧
      cfg.threads[5]? = some ⟨⟨0, dispatcherOne, .dispatch "pc" requestOne⟩,
        some (.ret (.dispatched .ok))⟩ ∧
      Hist.checkFrom carefulDelete [] cfg.hist.events = true := ⟨_, rfl, rfl, by decide⟩
  obtain ⟨cfg, hrun, ht, hc⟩ := h
  have hr := schedule_reach .start hrun
  exact ⟨cfg, hr, ht, pending_remembered hr (Hist.always_of_check (fun _ _ h => h) hc)⟩

def dispatcherTwo : TaskDispatcher := ⟨1, 30000, none, dispatcherOne.leaseMs_ge⟩

def lateDelete : List (Action DispatchRequest ℕ DispatchInput) :=
  .begin ⟨1, dispatcherTwo, .start⟩ :: steps 0 5 0 "" ++
    .begin ⟨1, dispatcherTwo, .dispatch "pc" requestOne⟩ :: steps 1 6 0 "" ++ .crash 1 ::
    invoke .start :: steps 2 7 1 "" ++ invoke .redeliver :: steps 3 6 70000 "" ++
    invoke (.dispatch "pc" requestOne) :: steps 4 11 70000 "" ++ steps 3 2 70001 ""

/-- Both dispatchers are idle, the dispatch returned ok, and nobody lists the request. -/
theorem pending_forgotten : ∃ cfg, Reach dispatchSystem emptyDispatches cfg ∧
    cfg.threads[4]? = some ⟨⟨0, dispatcherOne, .dispatch "pc" requestOne⟩,
      some (.ret (.dispatched .ok))⟩ ∧
    between "r" cfg.hist = [] ∧
    (recordAt "r" cfg.hist.shared).map DurableDispatch.outcome = some none ∧
    indexed "r" cfg.hist.shared = false := by
  have h : ∃ cfg, schedule dispatchSystem lateDelete (.start emptyDispatches) = some cfg ∧
      cfg.threads[4]? = some ⟨⟨0, dispatcherOne, .dispatch "pc" requestOne⟩,
        some (.ret (.dispatched .ok))⟩ ∧ between "r" cfg.hist = [] ∧
      (recordAt "r" cfg.hist.shared).map DurableDispatch.outcome = some none ∧
      indexed "r" cfg.hist.shared = false := ⟨_, rfl, rfl, by decide, by decide, by decide⟩
  obtain ⟨cfg, hrun, ht, hb, hrec, hi⟩ := h
  exact ⟨cfg, schedule_reach .start hrun, ht, hb, hrec, hi⟩

end Wazir.Dispatch
