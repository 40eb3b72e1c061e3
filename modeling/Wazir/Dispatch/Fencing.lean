import Mathlib.Data.List.TakeWhile
import Wazir.Dispatch.DispatcherSystem

/-! Fencing of remote work. A dispatch record carries at most one lease, set by the latest
claim that went through, so whatever is accepted under its token comes from the current
attempt. Once a record has an outcome, only retention pruning ends it. Pruning forgets the
request altogether: the same id can then be dispatched and claimed again. -/

namespace Wazir.Dispatch

open Wazir.Async

/-! What a command does to the record of a request. -/

/-- The update of the record `id` that went through. -/
def accepted (id : RequestId) (e : DispatchEntry) : Option (RecordUpdate × DurableDispatch × Bool) :=
  match e.op, e.res with
  | .updateDispatch i u, .ok out => if i = id then some (u, out) else none
  | _, _ => none

def deletes (id : RequestId) (e : DispatchEntry) : Bool :=
  match e.op, e.res with
  | .deleteDispatch i, .ok _ => i = id
  | _, _ => false

def creates (id : RequestId) (e : DispatchEntry) : Bool :=
  match accepted id e with
  | some (.create _ _, _) => true
  | _ => false

/-- The computer whose claim got a lease, and the number of its attempt. -/
def leased (id : RequestId) (e : DispatchEntry) : Option (ComputerId × ℕ) :=
  match accepted id e with
  | some (.claim computerId _, r, _) => if r.outcome.isSome then none else some (computerId, r.attempt)
  | _ => none

/-- The token under which an event, a renewal or an outcome was accepted. -/
def presented (id : RequestId) (e : DispatchEntry) : Option String :=
  match accepted id e with
  | some (.renew token _, _) => some token
  | some (.recordEvent _ token, _) => some token
  | some (.commit _ token, _, committed) => if committed then some token else none
  | _ => none

def recordAt (id : RequestId) (s : DispatchShared) : Option DurableDispatch := s.dispatches.lookup id

variable {e : DispatchEntry}

/-- The record was left alone, updated or deleted. -/
theorem dispatchEntry_cases (id : RequestId)
    (hx : dispatchExec e.op e.input e.before = some (e.res, e.after)) :
    (accepted id e = none ∧ deletes id e = false ∧ recordAt id e.after = recordAt id e.before) ∨
    (∃ u out, accepted id e = some (u, out) ∧ deletes id e = false ∧
      Change e.input.now e.input.uuid u (recordAt id e.before) out ∧
      recordAt id e.after = some out.1) ∨
    (accepted id e = none ∧ deletes id e = true ∧ recordAt id e.after = none) := by
  obtain ⟨i, c, op, inp, r, before, after⟩ := e
  cases op with
  | updateDispatch k u =>
    simp only [dispatchExec] at hx
    split at hx
    · cases hx
      exact .inl ⟨rfl, rfl, rfl⟩
    split at hx
    · cases hx
      exact .inl ⟨rfl, rfl, rfl⟩
    rename_i out hout
    cases hx
    by_cases hk : k = id
    · subst hk
      exact .inr (.inl ⟨u, out, by simp [accepted], rfl, RecordUpdate.apply_change hout,
        by simp [recordAt]⟩)
    · exact .inl ⟨by simp [accepted, hk], rfl, AList.lookup_insert_ne (Ne.symm hk)⟩
  | deleteDispatch k =>
    simp only [dispatchExec] at hx
    split at hx
    · cases hx
      exact .inl ⟨rfl, rfl, rfl⟩
    cases hx
    by_cases hk : k = id
    · subst hk
      exact .inr (.inr ⟨rfl, by simp [deletes], by simp [recordAt]⟩)
    · exact .inl ⟨rfl, by simp [deletes, hk], AList.lookup_erase_ne (Ne.symm hk)⟩
  | _ =>
    have same : after.dispatches = before.dispatches :=
      dispatchExec_dispatches hx (by simp) (by simp)
    exact .inl ⟨rfl, rfl, by simp only [recordAt, same]⟩

variable {cfg : DispatchConfig}

theorem dispatch_executed (hr : Reach dispatchSystem emptyDispatches cfg)
    (he : e ∈ cfg.hist.entries) :
    dispatchExec e.op e.input e.before = some (e.res, e.after) := hr.executed he

/-! The claims of a record. -/

/-- The commands since the record was created, the latest first. -/
def current (id : RequestId) (h : DispatchHist) : List DispatchEntry :=
  h.entries.reverse.takeWhile fun e => !creates id e

/-- The leases given since then, the latest first. -/
def leases (id : RequestId) (h : DispatchHist) : List DispatchEntry :=
  (current id h).filter fun e => (leased id e).isSome

/-- The request that was dispatched last under this id. -/
def lastRequest (id : RequestId) (h : DispatchHist) : Option WorkerExecutionRequest :=
  (h.entries.reverse.find? (creates id)).bind fun e => (accepted id e).map fun a => a.2.1.request

section Push

variable {id : RequestId} {h : DispatchHist} {e : DispatchEntry} {s : DispatchShared}

theorem leased_not_creates (hl : (leased id e).isSome) : creates id e = false := by
  unfold leased at hl
  unfold creates
  split at hl <;> simp_all

theorem leases_ran : leases id (h.push (.ran e) s) =
    if creates id e then [] else if (leased id e).isSome then e :: leases id h else leases id h := by
  simp only [leases, current, Hist.entries_push_ran, List.reverse_append, List.reverse_cons,
    List.reverse_nil, List.nil_append, List.singleton_append, List.takeWhile_cons,
    Bool.not_eq_true']
  cases creates id e <;> simp [List.filter_cons]

theorem lastRequest_ran : lastRequest id (h.push (.ran e) s) =
    if creates id e then (accepted id e).map fun a => a.2.1.request else lastRequest id h := by
  simp only [lastRequest, Hist.entries_push_ran, List.reverse_append, List.reverse_cons,
    List.reverse_nil, List.nil_append, List.singleton_append, List.find?_cons]
  cases creates id e <;> simp

theorem leases_other (hc : creates id e = false) (hl : leased id e = none) :
    leases id (h.push (.ran e) s) = leases id h := by
  simp [leases_ran, hc, hl]

theorem lastRequest_other (hc : creates id e = false) :
    lastRequest id (h.push (.ran e) s) = lastRequest id h := by
  simp [lastRequest_ran, hc]

end Push

/-- What ties the record `id` to the claims made on it. -/
structure LeaseLog (id : RequestId) (h : DispatchHist) : Prop where
  request : ∀ r, recordAt id h.shared = some r → lastRequest id h = some r.request
  attempt : ∀ r, recordAt id h.shared = some r → r.attempt = (leases id h).length
  once : ∀ q, lastRequest id h = some q → q.replayPolicy ≠ some .readOnly →
    (leases id h).length ≤ 1
  holder : ∀ r l, recordAt id h.shared = some r → r.lease = some l →
    ∃ e rest, leases id h = e :: rest ∧ e.input.uuid = l.token ∧
      leased id e = some (r.computerId, r.attempt)

/-- Everything about the record that the log looks at stayed, up to the lease being dropped. -/
theorem LeaseLog.kept {id : RequestId} {h h' : DispatchHist} (log : LeaseLog id h)
    (hq : lastRequest id h' = lastRequest id h) (hl : leases id h' = leases id h)
    (hrec : ∀ r', recordAt id h'.shared = some r' → ∃ r, recordAt id h.shared = some r ∧
      r'.request = r.request ∧ r'.attempt = r.attempt ∧
      ∀ l', r'.lease = some l' → r'.computerId = r.computerId ∧
        ∃ l, r.lease = some l ∧ l'.token = l.token) : LeaseLog id h' := by
  refine ⟨fun r' hr' => ?_, fun r' hr' => ?_, ?_, fun r' l' hr' hl' => ?_⟩
  · obtain ⟨r, hr, hreq, -, -⟩ := hrec r' hr'
    rw [hq, hreq]
    exact log.request r hr
  · obtain ⟨r, hr, -, hatt, -⟩ := hrec r' hr'
    rw [hl, hatt]
    exact log.attempt r hr
  · rw [hq, hl]
    exact log.once
  · obtain ⟨r, hr, -, hatt, hlease⟩ := hrec r' hr'
    obtain ⟨hc, l, hrl, htok⟩ := hlease l' hl'
    obtain ⟨e, rest, hes, huuid, he⟩ := log.holder r l hr hrl
    exact ⟨e, rest, by rw [hl, hes], by rw [huuid, htok], by rw [he, hc, hatt]⟩

theorem not_creates_of_not_accepted {id : RequestId} (h : accepted id e = none) :
    creates id e = false ∧ leased id e = none := by
  simp [creates, leased, h]

/-- Besides a creation and a claim that gets a lease, an update keeps the attempt and gives
nobody a new lease. -/
theorem change_lease {id : RequestId} {u : RecordUpdate} {before : Option DurableDispatch}
    {out : DurableDispatch × Bool} (ha : accepted id e = some (u, out))
    (h : Change e.input.now e.input.uuid u before out) :
    (∃ computerId request, creates id e = true ∧ before = none ∧
      out.1 = ⟨computerId, request, [], none, none, 0, false, none⟩) ∨
    (∃ old, before = some old ∧ creates id e = false ∧ out.1.request = old.request ∧
      out.1.computerId = old.computerId ∧ out.1.attempt = old.attempt + 1 ∧
      old.unrepeatable = false ∧ leased id e = some (out.1.computerId, out.1.attempt) ∧
      out.1.lease.map Lease.token = some e.input.uuid) ∨
    (∃ old, before = some old ∧ creates id e = false ∧ leased id e = none ∧
      out.1.request = old.request ∧ out.1.attempt = old.attempt ∧
      ∀ l', out.1.lease = some l' → out.1.computerId = old.computerId ∧
        ∃ l, old.lease = some l ∧ l'.token = l.token) := by
  cases h with
  | created computerId request =>
    exact .inl ⟨computerId, request, by simp [creates, ha], rfl, rfl⟩
  | issued old computerId leaseMs owner pending free safe =>
    exact .inr (.inl ⟨old, rfl, by simp [creates, ha], rfl, rfl, by simp, safe,
      by simp [leased, ha, pending, owner], rfl⟩)
  | cancelled old pending =>
    exact .inr (.inr ⟨old, rfl, by simp [creates, ha], by simp [leased, ha], rfl,
      by simp [DurableDispatch.terminal], fun l' hl' => by cases hl'⟩)
  | abandoned u old step pending free lost =>
    have hc : creates id e = false ∧ leased id e = none := by
      rcases step with ⟨_, _, rfl⟩ | ⟨_, rfl⟩ <;>
        simp [creates, leased, ha, DurableDispatch.terminal]
    exact .inr (.inr ⟨old, rfl, hc.1, hc.2, rfl, by simp [DurableDispatch.terminal],
      fun l' hl' => by cases hl'⟩)
  | unchanged u old step =>
    have hc : creates id e = false ∧ leased id e = none := by
      rcases step with ⟨_, rfl⟩ | ⟨rfl, -⟩ | ⟨_, _, rfl, -⟩ <;> simp [creates, leased, ha]
    exact .inr (.inr ⟨old, rfl, hc.1, hc.2, rfl, rfl, fun l' hl' => ⟨rfl, l', hl', rfl⟩⟩)
  | reassigned old computerId pending free safe =>
    exact .inr (.inr ⟨old, rfl, by simp [creates, ha], by simp [leased, ha], rfl, by simp,
      fun l' hl' => by cases hl'⟩)
  | renewed old token leaseMs valid pending =>
    obtain ⟨-, l, hl, htok, -⟩ := valid
    refine .inr (.inr ⟨old, rfl, by simp [creates, ha], by simp [leased, ha], rfl, by simp,
      fun l' hl' => ⟨rfl, l, hl, ?_⟩⟩)
    cases hl'
    exact htok.symm
  | marked old offline pending =>
    exact .inr (.inr ⟨old, rfl, by simp [creates, ha], by simp [leased, ha], rfl, rfl,
      fun l' hl' => ⟨rfl, l', hl', rfl⟩⟩)
  | recorded old event token valid pending same =>
    exact .inr (.inr ⟨old, rfl, by simp [creates, ha], by simp [leased, ha], rfl, by simp,
      fun l' hl' => ⟨rfl, l', hl', rfl⟩⟩)
  | committed old outcome token valid pending =>
    exact .inr (.inr ⟨old, rfl, by simp [creates, ha], by simp [leased, ha], rfl, rfl,
      fun l' hl' => ⟨rfl, l', hl', rfl⟩⟩)

variable {h : DispatchHist}

theorem LeaseLog.ran {id : RequestId} {i : ℕ} {c : DispatchRequest} {op : DispatchOp}
    {inp : DispatchInput} {r : DispatchRes op} {s : DispatchShared} (log : LeaseLog id h)
    (hx : dispatchExec op inp h.shared = some (r, s)) :
    LeaseLog id (h.push (.ran ⟨i, c, op, inp, r, h.shared, s⟩) s) := by
  set e : DispatchEntry := ⟨i, c, op, inp, r, h.shared, s⟩ with he
  rcases dispatchEntry_cases id (e := e) hx with ⟨ha, -, hs⟩ | ⟨u, out, ha, -, hch, hs⟩ |
    ⟨ha, -, hs⟩
  · obtain ⟨hc, hl⟩ := not_creates_of_not_accepted ha
    refine log.kept (lastRequest_other hc) (leases_other hc hl) fun r' hr' => ?_
    exact ⟨r', hs.symm.trans hr', rfl, rfl, fun l' hl' => ⟨rfl, l', hl', rfl⟩⟩
  · replace hs : recordAt id s = some out.1 := hs
    rcases change_lease ha hch with ⟨computerId, request, hc, -, hnew⟩ |
      ⟨old, hold, hc, hreq, hcomp, hatt, safe, hl, htok⟩ | ⟨old, hold, hc, hl, hreq, hatt, hlease⟩
    · have hls : leases id (h.push (.ran e) s) = [] := by simp [leases_ran, hc]
      refine ⟨?_, ?_, by simp [hls], ?_⟩ <;> intro r' <;> intros <;>
        cases hs.symm.trans (by assumption : recordAt id s = some r')
      · simp [lastRequest_ran, hc, ha]
      · simp [hls, hnew]
      · simp_all
    · have hold : recordAt id h.shared = some old := hold
      have hls : leases id (h.push (.ran e) s) = e :: leases id h := by simp [leases_ran, hc, hl]
      refine ⟨fun r' hr' => ?_, fun r' hr' => ?_, fun q hq hpolicy => ?_, fun r' l' hr' hl' => ?_⟩
      · cases hs.symm.trans hr'
        rw [lastRequest_other hc, log.request old hold, hreq]
      · cases hs.symm.trans hr'
        rw [hatt, hls, List.length_cons, log.attempt old hold]
      · rw [lastRequest_other hc, log.request old hold, Option.some.injEq] at hq
        subst hq
        have hzero : old.attempt = 0 := by
          simpa [DurableDispatch.unrepeatable, hpolicy] using safe
        rw [hls, List.length_cons, ← log.attempt old hold, hzero]
      · cases hs.symm.trans hr'
        rw [hl', Option.map_some, Option.some.injEq] at htok
        exact ⟨e, leases id h, hls, htok.symm, hl⟩
    · refine log.kept (lastRequest_other hc) (leases_other hc hl) fun r' hr' => ?_
      cases hs.symm.trans hr'
      exact ⟨old, hold, hreq, hatt, hlease⟩
  · obtain ⟨hc, hl⟩ := not_creates_of_not_accepted ha
    refine log.kept (lastRequest_other hc) (leases_other hc hl) fun r' hr' => ?_
    cases hs.symm.trans hr'

theorem leaseLog_reach (hr : Reach dispatchSystem emptyDispatches cfg) (id : RequestId) :
    LeaseLog id cfg.hist := by
  refine Reach.invariant (I := LeaseLog id) ?_ ?_ ?_ ?_ hr
  · refine ⟨?_, ?_, ?_, ?_⟩ <;>
      simp [recordAt, emptyDispatches, lastRequest, leases, current, Hist.entries]
  · rintro h i c s log ⟨⟩
    exact log.kept (by simp [lastRequest]) (by simp [leases, current])
      fun r' hr' => ⟨r', hr', rfl, rfl, fun l' hl' => ⟨rfl, l', hl', rfl⟩⟩
  · exact fun h i c op inp r s log hx => log.ran hx
  · exact fun h p log => log.kept (by simp [lastRequest]) (by simp [leases, current])
      fun r' hr' => ⟨r', hr', rfl, rfl, fun l' hl' => ⟨rfl, l', hl', rfl⟩⟩

/-! Outcomes. -/

/-- The record of a request without an outcome, with an outcome, or gone. -/
theorem outcome_kept {id : RequestId}
    (hx : dispatchExec e.op e.input e.before = some (e.res, e.after)) {r : DurableDispatch}
    (hr : recordAt id e.before = some r) (ho : r.outcome.isSome) :
    deletes id e = true ∧ recordAt id e.after = none ∨ recordAt id e.after = some r := by
  rcases dispatchEntry_cases id hx with ⟨-, -, hs⟩ | ⟨u, out, -, -, hch, hs⟩ | ⟨-, hd, hs⟩
  · exact .inr (hs.trans hr)
  · refine .inr (hs.trans ?_)
    rw [hr] at hch
    cases hch with
    | unchanged => rfl
    | _ => simp_all
  · exact .inl ⟨hd, hs⟩

/-- How an outcome `o` came to be stored on the record `r`. -/
inductive StoredBy (id : RequestId) (e : DispatchEntry) (r : DurableDispatch) (o : ExecutionOutcome) :
    Prop
  | holder (token : String) (presented : presented id e = some token)
      (valid : Valid r token (e.input.now 0))
  | cancel (op : e.op = .updateDispatch id .cancel) (error : o.error = some "CANCELLED")
  | unknown (free : r.leaseLive (e.input.now 0) = false) (lost : r.unrepeatable = true)
      (error : o.error = some "UNKNOWN_OUTCOME")

theorem accepted_op {id : RequestId} {u : RecordUpdate} {out : DurableDispatch × Bool}
    (ha : accepted id e = some (u, out)) :
    e.op = .updateDispatch id u := by
  obtain ⟨i, c, op, inp, r, before, after⟩ := e
  cases op with
  | updateDispatch k v =>
    cases r with
    | error x => cases ha
    | ok out' =>
      simp only [accepted] at ha
      split_ifs at ha with hk
      cases ha
      rw [hk]
  | _ => cases ha

theorem outcome_stored {id : RequestId}
    (hx : dispatchExec e.op e.input e.before = some (e.res, e.after)) {r' : DurableDispatch}
    {o : ExecutionOutcome} (hr' : recordAt id e.after = some r') (ho : r'.outcome = some o) :
    recordAt id e.before = some r' ∨ ∃ r, recordAt id e.before = some r ∧ r.outcome = none ∧
      StoredBy id e r o := by
  rcases dispatchEntry_cases id hx with ⟨-, -, hs⟩ | ⟨u, out, ha, -, hch, hs⟩ | ⟨-, -, hs⟩
  · exact .inl (hs.symm.trans hr')
  · cases hs.symm.trans hr'
    generalize hb : recordAt id e.before = before at hch
    cases hch with
    | created => cases ho
    | unchanged => exact .inl rfl
    | cancelled old pending =>
      refine .inr ⟨old, rfl, pending, .cancel (accepted_op ha) ?_⟩
      cases ho
      rfl
    | abandoned u old step pending free lost =>
      refine .inr ⟨old, rfl, pending, .unknown free lost ?_⟩
      cases ho
      rfl
    | committed old outcome token valid pending =>
      exact .inr ⟨old, rfl, pending, .holder token (by simp [presented, ha]) valid⟩
    | _ => simp_all
  · cases hs.symm.trans hr'

/-! Attempts. -/

theorem presented_valid {id : RequestId}
    (hx : dispatchExec e.op e.input e.before = some (e.res, e.after)) {token : String}
    (hp : presented id e = some token) : ∃ r, recordAt id e.before = some r ∧ r.outcome = none ∧
      Valid r token (e.input.now 0) := by
  rcases dispatchEntry_cases id hx with ⟨ha, -, -⟩ | ⟨u, out, ha, -, hch, -⟩ | ⟨ha, -, -⟩
  · simp [presented, ha] at hp
  · generalize hb : recordAt id e.before = before at hch
    cases hch with
    | renewed old t leaseMs valid pending =>
      simp only [presented, ha, Option.some.injEq] at hp
      exact ⟨old, rfl, pending, hp ▸ valid⟩
    | recorded old event t valid pending same =>
      simp only [presented, ha, Option.some.injEq] at hp
      exact ⟨old, rfl, pending, hp ▸ valid⟩
    | committed old outcome t valid pending =>
      simp only [presented, ha, if_true, Option.some.injEq] at hp
      exact ⟨old, rfl, pending, hp ▸ valid⟩
    | unchanged u old step =>
      rcases step with ⟨_, rfl⟩ | ⟨rfl, -⟩ | ⟨_, _, rfl, -⟩ <;> simp [presented, ha] at hp
    | abandoned u old step =>
      rcases step with ⟨_, _, rfl⟩ | ⟨_, rfl⟩ <;> simp [presented, ha] at hp
    | _ => simp [presented, ha] at hp
  · simp [presented, ha] at hp

/-- The latest lease, and what came before and after it. -/
theorem leases_split {id : RequestId} {rest : List DispatchEntry} (hl : leases id h = e :: rest) :
    ∃ old later, h.entries = old ++ e :: later ∧ (leased id e).isSome ∧
      ∀ e' ∈ later, creates id e' = false ∧ leased id e' = none := by
  obtain ⟨l₁, l₂, hcur, hnot, hlease, -⟩ := List.filter_eq_cons_iff.mp hl
  obtain ⟨l₃, hrev⟩ : ∃ l₃, h.entries.reverse = current id h ++ l₃ :=
    ⟨_, (List.takeWhile_append_dropWhile ..).symm⟩
  have hent : h.entries = (l₂ ++ l₃).reverse ++ e :: l₁.reverse := by
    rw [← List.reverse_reverse h.entries, hrev, hcur]
    simp
  refine ⟨_, _, hent, hlease, fun e' he' => ?_⟩
  rw [List.mem_reverse] at he'
  have hmem : e' ∈ current id h := by simp [hcur, he']
  exact ⟨by simpa using List.mem_takeWhile_imp hmem, by simpa using hnot e' he'⟩

/-- `randomUUID` has not repeated itself among the leases of `id`. -/
def FreshTokens (id : RequestId) (h : DispatchHist) : Prop :=
  ((h.entries.filter fun e => (leased id e).isSome).map fun e => e.input.uuid).Nodup

theorem FreshTokens.before {id : RequestId} (fresh : FreshTokens id h)
    {old later : List DispatchEntry} (he : h.entries = old ++ e :: later)
    (hl : (leased id e).isSome) : ∀ e' ∈ old, (leased id e').isSome → e'.input.uuid ≠ e.input.uuid := by
  intro e' he' hl' heq
  rw [FreshTokens, he, List.filter_append, List.filter_cons_of_pos (by simpa using hl),
    List.map_append, List.map_cons, List.nodup_append] at fresh
  exact fresh.2.2 e'.input.uuid (List.mem_map_of_mem (List.mem_filter.mpr ⟨he', by simpa using hl'⟩))
    e.input.uuid (List.mem_cons_self ..) heq

theorem FreshTokens.upTo {id : RequestId} {h h' : DispatchHist} {l : List DispatchEntry}
    (fresh : FreshTokens id h') (he : h'.entries = h.entries ++ l) : FreshTokens id h := by
  rw [FreshTokens, he, List.filter_append, List.map_append] at fresh
  exact (List.nodup_append.mp fresh).1

/-! Claims. -/

/-- A record that was there is there until it is deleted. -/
theorem record_kept (id : RequestId) {cfg cfg' : DispatchConfig}
    (hr : Reach dispatchSystem emptyDispatches cfg)
    (h : Relation.ReflTransGen (Step dispatchSystem) cfg cfg') :
    ∃ post, cfg'.hist.events = cfg.hist.events ++ post ∧
      ((∀ e, .ran e ∈ post → deletes id e = true → recordAt id e.before = none) →
        (recordAt id cfg.hist.shared).isSome → (recordAt id cfg'.hist.shared).isSome) := by
  refine (hr.later (R := fun h h' => ∃ post, h'.events = h.events ++ post ∧
    ((∀ e, .ran e ∈ post → deletes id e = true → recordAt id e.before = none) →
      (recordAt id h.shared).isSome → (recordAt id h'.shared).isSome)) ?_ ?_ ?_ h).1
  · exact fun h => ⟨[], by simp, fun _ hs => hs⟩
  · rintro h₁ h₂ h₃ ⟨post, he, hk⟩ ⟨post', he', hk'⟩
    refine ⟨post ++ post', by rw [he', he, List.append_assoc], fun hd hs => ?_⟩
    exact hk' (fun e he => hd e (List.mem_append_right _ he))
      (hk (fun e he => hd e (List.mem_append_left _ he)) hs)
  · intro c c' _ hs
    cases hs with
    | begin d s _ admitted =>
      cases admitted
      exact ⟨_, rfl, fun _ hs => hs⟩
    | run i d op next inp r s _ hx =>
      refine ⟨_, rfl, fun hd hs => ?_⟩
      rcases dispatchEntry_cases id (e := ⟨i, d, op, inp, r, c.hist.shared, s⟩) hx with
        ⟨-, -, heq⟩ | ⟨u, out, -, -, -, heq⟩ | ⟨-, hdel, -⟩
      · exact heq ▸ hs
      · exact heq ▸ rfl
      · have hnone := hd _ (List.mem_singleton_self _) hdel
        simp only at hnone
        simp [hnone] at hs
    | crash p => exact ⟨_, rfl, fun _ hs => hs⟩

theorem creates_absent {id : RequestId}
    (hx : dispatchExec e.op e.input e.before = some (e.res, e.after)) (hc : creates id e = true) :
    recordAt id e.before = none := by
  rcases dispatchEntry_cases id hx with ⟨ha, -, -⟩ | ⟨u, out, ha, -, hch, -⟩ | ⟨ha, -, -⟩
  · rw [(not_creates_of_not_accepted ha).1] at hc
    cases hc
  · rcases change_lease ha hch with ⟨_, _, -, hnone, -⟩ | ⟨_, -, hn, -⟩ | ⟨_, -, hn, -⟩
    · exact hnone
    all_goals
      rw [hn] at hc
      cases hc
  · rw [(not_creates_of_not_accepted ha).1] at hc
    cases hc

/-- A claim gets a lease only on a record that was never claimed, or may be replayed. -/
theorem leased_before {id : RequestId}
    (hx : dispatchExec e.op e.input e.before = some (e.res, e.after)) (hl : (leased id e).isSome) :
    ∃ r, recordAt id e.before = some r ∧ r.unrepeatable = false := by
  rcases dispatchEntry_cases id hx with ⟨ha, -, -⟩ | ⟨u, out, ha, -, hch, -⟩ | ⟨ha, -, -⟩
  · rw [(not_creates_of_not_accepted ha).2] at hl
    cases hl
  · rcases change_lease ha hch with ⟨_, _, hc, -, -⟩ | ⟨old, hold, -, -, -, -, safe, -⟩ |
      ⟨_, -, -, hn, -⟩
    · rw [leased_not_creates hl] at hc
      cases hc
    · exact ⟨old, hold, safe⟩
    · rw [hn] at hl
      cases hl
  · rw [(not_creates_of_not_accepted ha).2] at hl
    cases hl

/-- Nothing was created under `id` since: the log only grew. -/
theorem leases_append {id : RequestId}
    {p mid : List (Event DispatchOp DispatchRes DispatchRequest ℕ DispatchInput DispatchShared)}
    {s t : DispatchShared} (hmid : ∀ e', .ran e' ∈ mid → creates id e' = false)
    (hl : (leased id e).isSome) :
    e ∈ leases id ⟨p ++ .ran e :: mid, s⟩ ∧
      lastRequest id ⟨p ++ .ran e :: mid, s⟩ = lastRequest id ⟨p, t⟩ := by
  set m := mid.filterMap Event.entry with hm
  have hent : (⟨p ++ .ran e :: mid, s⟩ : DispatchHist).entries.reverse =
      (m.reverse ++ [e]) ++ (⟨p, t⟩ : DispatchHist).entries.reverse := by
    simp [Hist.entries, Event.entry, hm]
  have hall : ∀ e' ∈ m.reverse ++ [e], creates id e' = false := by
    intro e' he'
    rcases List.mem_append.mp he' with he' | he'
    · obtain ⟨ev, hev, hent⟩ := List.mem_filterMap.mp (List.mem_reverse.mp he')
      cases ev with
      | ran e'' =>
        cases hent
        exact hmid _ hev
      | began i c => cases hent
      | crashed p => cases hent
    · rw [List.mem_singleton.mp he']
      exact leased_not_creates hl
  constructor
  · refine List.mem_filter.mpr ⟨?_, by simpa using hl⟩
    rw [current, hent, List.takeWhile_append_of_pos (by simpa using hall)]
    simp
  · rw [lastRequest, hent, List.find?_append, List.find?_eq_none.mpr (by simpa using hall)]
    rfl

/-- Of two claims of `id` that got a lease, either the request may be replayed, or retention
pruning deleted the record in between and then the id was dispatched anew. -/
theorem claimed_again (hr : Reach dispatchSystem emptyDispatches cfg) {id : RequestId}
    {pre mid post : List (Event DispatchOp DispatchRes DispatchRequest ℕ
      DispatchInput DispatchShared)} {e₁ e₂ : DispatchEntry}
    (he : cfg.hist.events = (pre ++ .ran e₁ :: mid) ++ .ran e₂ :: post) (h₁ : (leased id e₁).isSome)
    (h₂ : (leased id e₂).isSome) :
    (∃ r₁ r₂, recordAt id e₁.before = some r₁ ∧ recordAt id e₂.before = some r₂ ∧
      r₁.request = r₂.request ∧ r₂.request.replayPolicy = some .readOnly) ∨
    ∃ mid₁ e mid₂ d, mid = mid₁ ++ .ran e :: mid₂ ∧ creates id e = true ∧ .ran d ∈ mid₁ ∧
      deletes id d = true ∧ d.call.call.prunes := by
  obtain ⟨cfg₂, hr₂, hh₂, hx₂, -⟩ := hr.ran he
  obtain ⟨cfg₁, hr₁, hh₁, hx₁, -⟩ := hr₂.ran (congrArg Hist.events hh₂)
  by_cases hnew : ∃ e, .ran e ∈ mid ∧ creates id e = true
  · obtain ⟨e, hmem, hc⟩ := hnew
    obtain ⟨mid₁, mid₂, rfl⟩ := List.append_of_mem hmem
    have he' : cfg.hist.events = (pre ++ .ran e₁ :: mid₁) ++ .ran e :: (mid₂ ++ .ran e₂ :: post) := by
      rw [he]
      simp
    obtain ⟨cfg₃, hr₃, hh₃, hx₃, -⟩ := hr.ran he'
    obtain ⟨cfg₁', hr₁', hh₁', -, hsteps⟩ := hr₃.ran (congrArg Hist.events hh₃)
    obtain ⟨r₁, hrec, -⟩ := leased_before hx₁ h₁
    obtain ⟨post', hpost, hkept⟩ := record_kept id hr₁' hsteps
    rw [hh₃, hh₁'] at hpost hkept
    have hpost : post' = .ran e₁ :: mid₁ := (List.append_cancel_left hpost).symm
    subst hpost
    have hgone := creates_absent hx₃ hc
    by_contra hnone
    have hdel : ∀ d, .ran d ∈ mid₁ → deletes id d = false := by
      intro d hd
      by_contra hdel
      refine hnone (.inr ⟨mid₁, e, mid₂, d, rfl, hc, hd, by simpa using hdel, ?_⟩)
      have hmay := hr.only (P := fun c op => c.call.may op) (fun c => c.call.body_may c.dispatcher) d
        (List.mem_filterMap.mpr ⟨.ran d, by rw [he']; simp [hd], rfl⟩)
      obtain ⟨i, c, op, inp, r, before, after⟩ := d
      cases op with
      | deleteDispatch k => exact hmay
      | _ => simp [deletes] at hdel
    have hself : deletes id e₁ = false := by
      rcases dispatchEntry_cases id hx₁ with ⟨-, hd, -⟩ | ⟨_, _, -, hd, -⟩ | ⟨ha, -, -⟩
      · exact hd
      · exact hd
      · rw [(not_creates_of_not_accepted ha).2] at h₁
        cases h₁
    have hsome := hkept (by
      rintro d hd hdd
      rcases List.mem_cons.mp hd with hd | hd
      · cases hd
        simp [hself] at hdd
      · simp [hdel d hd] at hdd) (by simp [hrec])
    simp [hgone] at hsome
  · simp only [not_exists, not_and, Bool.not_eq_true] at hnew
    obtain ⟨r₁, hrec₁, -⟩ := leased_before hx₁ h₁
    obtain ⟨r₂, hrec₂, safe⟩ := leased_before hx₂ h₂
    have log₁ := leaseLog_reach hr₁ id
    have log₂ := leaseLog_reach hr₂ id
    rw [hh₁] at log₁
    rw [hh₂] at log₂
    obtain ⟨hmem, hlast⟩ := leases_append (s := e₂.before) (t := e₁.before) (p := pre) hnew h₁
    have hreq : r₁.request = r₂.request := by
      have := (log₂.request r₂ hrec₂).symm.trans (hlast.trans (log₁.request r₁ hrec₁))
      exact (Option.some.inj this).symm
    have hpos : 0 < r₂.attempt := by
      rw [log₂.attempt r₂ hrec₂]
      exact List.length_pos_of_mem hmem
    exact .inl ⟨r₁, r₂, hrec₁, hrec₂, hreq, by
      simpa [DurableDispatch.unrepeatable, hpos] using safe⟩

/-- What fencing promises of the request `id`. -/
structure Fenced (cfg : DispatchConfig) (id : RequestId) : Prop where
  oneToken : ∀ r, recordAt id cfg.hist.shared = some r → ∀ t₁ t₂ now₁ now₂,
    Valid r t₁ now₁ → Valid r t₂ now₂ → t₁ = t₂
  /-- One claim for each accepted dispatch, unless the request may be replayed. -/
  claimedOnce : ∀ pre e₁ mid e₂ post,
    cfg.hist.events = (pre ++ .ran e₁ :: mid) ++ .ran e₂ :: post →
    (leased id e₁).isSome → (leased id e₂).isSome →
    (∃ r₁ r₂, recordAt id e₁.before = some r₁ ∧ recordAt id e₂.before = some r₂ ∧
      r₁.request = r₂.request ∧ r₂.request.replayPolicy = some .readOnly) ∨
    ∃ mid₁ e mid₂ d, mid = mid₁ ++ .ran e :: mid₂ ∧ creates id e = true ∧ .ran d ∈ mid₁ ∧
      deletes id d = true ∧ d.call.call.prunes
  /-- While its record exists, a stored outcome stays. -/
  outcomeKept : ∀ e ∈ cfg.hist.entries, ∀ r, recordAt id e.before = some r → r.outcome.isSome →
    deletes id e = true ∧ recordAt id e.after = none ∨ recordAt id e.after = some r
  outcomeStored : ∀ e ∈ cfg.hist.entries, ∀ r' o, recordAt id e.after = some r' →
    r'.outcome = some o → recordAt id e.before = some r' ∨
      ∃ r, recordAt id e.before = some r ∧ r.outcome = none ∧ StoredBy id e r o
  /-- What is accepted under a token comes from the claim that was given it: the latest one,
  by the computer the request is assigned to, with the attempt the record is at. -/
  attempt : ∀ pre e post, cfg.hist.events = pre ++ .ran e :: post →
    ∀ token, presented id e = some token →
    ∃ r old e₀ later, recordAt id e.before = some r ∧ Valid r token (e.input.now 0) ∧
      (⟨pre, e.before⟩ : DispatchHist).entries = old ++ e₀ :: later ∧ e₀.input.uuid = token ∧
      leased id e₀ = some (r.computerId, r.attempt) ∧
      (∀ e' ∈ later, creates id e' = false ∧ leased id e' = none) ∧
      (FreshTokens id cfg.hist → ∀ e' ∈ old, (leased id e').isSome → e'.input.uuid ≠ token)

theorem dispatch_fenced {cfg : DispatchConfig} (hr : Reach dispatchSystem emptyDispatches cfg)
    (id : RequestId) : Fenced cfg id := by
  refine ⟨?_, fun pre e₁ mid e₂ post he => claimed_again hr he,
    fun e he r hrec ho => outcome_kept (dispatch_executed hr he) hrec ho,
    fun e he r' o hrec ho => outcome_stored (dispatch_executed hr he) hrec ho, ?_⟩
  · rintro r - t₁ t₂ now₁ now₂ ⟨-, l₁, hl₁, rfl, -⟩ ⟨-, l₂, hl₂, rfl, -⟩
    cases hl₁.symm.trans hl₂
    rfl
  · intro pre e post he token hp
    obtain ⟨cfg₁, hr₁, hh, hx, -⟩ := hr.ran he
    obtain ⟨r, hrec, -, valid⟩ := presented_valid hx hp
    obtain ⟨-, l, hl, rfl, -⟩ := (show Valid r token _ from valid)
    have log := leaseLog_reach hr₁ id
    rw [hh] at log
    obtain ⟨e₀, rest, hls, huuid, hlease⟩ := log.holder r l hrec hl
    obtain ⟨old, later, hent, hl₀, hlater⟩ := leases_split hls
    refine ⟨r, old, e₀, later, hrec, valid, hent, huuid, hlease, hlater, fun fresh => ?_⟩
    rw [← huuid]
    exact (fresh.upTo (l := (.ran e :: post).filterMap Event.entry)
      (by simp [Hist.entries, he])).before hent hl₀

/-! Two runs: one request dispatched, claimed and committed, and then, its record pruned,
dispatched and claimed a second time. -/

/-- The next `n` commands of thread `i`, when the clock shows `t`. -/
def steps (i n : ℕ) (t : ℤ) (uuid : String) : List (Action DispatchRequest ℕ DispatchInput) :=
  List.replicate n (.run i ⟨fun _ => t, uuid, none, false⟩)

def dispatcherOne : TaskDispatcher := ⟨0, 30000, none, by decide⟩

def invoke (c : DispatchCall) : Action DispatchRequest ℕ DispatchInput := .begin ⟨0, dispatcherOne, c⟩

def requestOne : WorkerExecutionRequest := ⟨"r", "e", none⟩

def answered : ExecutionOutcome := ⟨true, "done", 1, 1, 5, none⟩

def completedOnce : List (Action DispatchRequest ℕ DispatchInput) :=
  invoke .start :: steps 0 5 0 "" ++ invoke (.dispatch "pc" requestOne) :: steps 1 8 1 "" ++
    invoke (.claim "r" "pc") :: steps 2 2 2 "t1" ++
    invoke (.commit "r" answered "t1") :: steps 3 3 3 ""

def claimedTwice : List (Action DispatchRequest ℕ DispatchInput) :=
  completedOnce ++ invoke (.pruneCompleted (some 0)) :: steps 4 3 4 "" ++
    invoke (.dispatch "pc" requestOne) :: steps 5 8 5 "" ++
    invoke (.claim "r" "pc") :: steps 6 2 6 "t2"

theorem dispatch_fenced_completed : ∃ cfg, Reach dispatchSystem emptyDispatches cfg ∧
    (cfg.hist.entries.filterMap (presented "r")) = ["t1"] ∧ Fenced cfg "r" := by
  have h : ∃ cfg, schedule dispatchSystem completedOnce (.start emptyDispatches) = some cfg ∧
      cfg.hist.entries.filterMap (presented "r") = ["t1"] := ⟨_, rfl, by decide⟩
  obtain ⟨cfg, hrun, hp⟩ := h
  have hr := schedule_reach .start hrun
  exact ⟨cfg, hr, hp, dispatch_fenced hr "r"⟩

/-- A request that must not be replayed gets a lease twice. -/
theorem claimed_twice : requestOne.replayPolicy ≠ some .readOnly ∧
    ∃ cfg, Reach dispatchSystem emptyDispatches cfg ∧
      (cfg.hist.entries.filter fun e => (leased "r" e).isSome).map
        (fun e => (recordAt "r" e.before).map DurableDispatch.request) =
          [some requestOne, some requestOne] := by
  have h : ∃ cfg, schedule dispatchSystem claimedTwice (.start emptyDispatches) = some cfg ∧
      (cfg.hist.entries.filter fun e => (leased "r" e).isSome).map
        (fun e => (recordAt "r" e.before).map DurableDispatch.request) =
          [some requestOne, some requestOne] := ⟨_, rfl, by decide⟩
  obtain ⟨cfg, hrun, hclaims⟩ := h
  exact ⟨by decide, cfg, schedule_reach .start hrun, hclaims⟩

end Wazir.Dispatch
