import Wazir.Dispatch.PendingIndex

/-! Streaming a remote execution. The record keeps the last events only; the client counts the
events it has seen and takes what comes after them in the window it polls. It gets every
event that was accepted exactly when no event it should yield left the window between two of
its answered polls. -/

namespace Wazir.Dispatch

open Wazir.Async

/-- Whether an update that goes through adds an event. -/
def adds (u : RecordUpdate) (before : Option DurableDispatch) (after : DurableDispatch) : Bool :=
  match u with
  | .create _ _ => false
  | .commit _ _ => false
  | .cancel => before.any fun r => r.outcome.isNone
  | .reconcile _ => after.outcome.isSome && before.any fun r => r.outcome.isNone
  | _ => true

/-- The event that a command added to the record `id`. -/
def appendedEvent (id : RequestId) (e : DispatchEntry) : Option WorkerExecutionEvent :=
  (accepted id e).bind fun a =>
    if adds a.1 (recordAt id e.before) a.2.1 then a.2.1.events.getLast? else none

/-- The status that a poll was answered with. -/
def answeredPoll (id : RequestId) (e : DispatchEntry) : Option DispatchStatus :=
  match e.op, e.res with
  | .fetchStatus k, .ok (some s) => if k = id then some s else none
  | _, _ => none

def sinceCreated (id : RequestId) (h : DispatchHist) : List DispatchEntry := (current id h).reverse

/-- All events accepted for the request, oldest first. -/
def acceptedEvents (id : RequestId) (h : DispatchHist) : List WorkerExecutionEvent :=
  (sinceCreated id h).filterMap (appendedEvent id)

/-- The answered polls of thread `i`. -/
def polled (id : RequestId) (i : ℕ) (h : DispatchHist) : List DispatchStatus :=
  ((sinceCreated id h).filter fun e => e.thread = i).filterMap (answeredPoll id)

/-- The events accepted by the time of each. -/
def acceptedAtPolls (id : RequestId) (i : ℕ) (h : DispatchHist) :
    List (List WorkerExecutionEvent) :=
  logsAt (appendedEvent id) (fun e => e.thread = i && (answeredPoll id e).isSome) []
    (sinceCreated id h)

/-- What left the window before the client polled it: at each answered poll, with `n` events
accepted by then, the first `n - MAX_EVENTS_PER_CHANNEL` of those accepted since the last one. -/
def missed (id : RequestId) (i : ℕ) (h : DispatchHist) : List WorkerExecutionEvent :=
  lostFrom maxEventsPerChannel 0 (acceptedAtPolls id i h)

section Push

variable {id : RequestId} {h : DispatchHist} {e : DispatchEntry} {s : DispatchShared}

theorem sinceCreated_ran : sinceCreated id (h.push (.ran e) s) =
    if creates id e then [] else sinceCreated id h ++ [e] := by
  simp only [sinceCreated, current, Hist.entries_push_ran, List.reverse_append, List.reverse_cons,
    List.reverse_nil, List.nil_append, List.singleton_append, List.takeWhile_cons,
    Bool.not_eq_true']
  cases creates id e <;> simp

theorem acceptedEvents_ran (hc : creates id e = false) : acceptedEvents id (h.push (.ran e) s) =
    acceptedEvents id h ++ (appendedEvent id e).toList := by
  simp only [acceptedEvents, sinceCreated_ran, hc, Bool.false_eq_true, if_false,
    List.filterMap_append, List.append_cancel_left_eq]
  cases h : appendedEvent id e <;> simp [h]

theorem polled_ran (hc : creates id e = false) (i : ℕ) : polled id i (h.push (.ran e) s) =
    polled id i h ++ if e.thread = i then (answeredPoll id e).toList else [] := by
  simp only [polled, sinceCreated_ran, hc, Bool.false_eq_true, if_false, List.filter_append,
    List.filterMap_append, List.append_cancel_left_eq]
  by_cases hi : e.thread = i
  · cases ha : answeredPoll id e <;> simp [hi, ha]
  · simp [hi]

theorem acceptedAtPolls_ran (hc : creates id e = false) (i : ℕ) :
    acceptedAtPolls id i (h.push (.ran e) s) = acceptedAtPolls id i h ++
      if e.thread = i ∧ (answeredPoll id e).isSome then [acceptedEvents id h] else [] := by
  simp only [acceptedAtPolls, sinceCreated_ran, hc, Bool.false_eq_true, if_false, logsAt_append,
    acceptedEvents, List.nil_append, Bool.and_eq_true, decide_eq_true_eq]

end Push

variable {e : DispatchEntry}

/-- An accepted update adds one event to the window, or leaves the events alone. -/
theorem appended_cases {id : RequestId} {u : RecordUpdate} {out : DurableDispatch × Bool}
    (ha : accepted id e = some (u, out))
    (h : Change e.input.now e.input.uuid u (recordAt id e.before) out) (hc : creates id e = false) :
    ∃ old, recordAt id e.before = some old ∧
      ((∃ ev, appendedEvent id e = some ev ∧ old.outcome = none ∧
        out.1.events = lastN (maxEventsPerChannel - 1) old.events ++ [ev]) ∨
      (appendedEvent id e = none ∧ out.1.events = old.events)) := by
  generalize hb : recordAt id e.before = before at h
  cases h with
  | created => simp [creates, ha] at hc
  | issued old computerId leaseMs owner pending =>
    exact ⟨old, rfl, .inl ⟨_, by simp [appendedEvent, ha, adds], pending, rfl⟩⟩
  | cancelled old pending =>
    exact ⟨old, rfl, .inl ⟨_, by simp [appendedEvent, ha, adds, hb, pending,
      DurableDispatch.terminal], pending, rfl⟩⟩
  | abandoned u old step pending =>
    refine ⟨old, rfl, .inl ⟨_, ?_, pending, rfl⟩⟩
    rcases step with ⟨_, _, rfl⟩ | ⟨_, rfl⟩ <;>
      simp [appendedEvent, ha, adds, hb, pending, DurableDispatch.terminal]
  | unchanged u old step =>
    refine ⟨old, rfl, .inr ⟨?_, rfl⟩⟩
    rcases step with ⟨_, rfl⟩ | ⟨rfl, ho⟩ | ⟨_, _, rfl, ho⟩
    · cases ho : old.outcome <;> simp [appendedEvent, ha, adds, hb, ho]
    · obtain ⟨o, ho⟩ := Option.isSome_iff_exists.mp ho
      simp [appendedEvent, ha, adds, hb, ho]
    · simp [appendedEvent, ha, adds]
  | marked old offline pending =>
    exact ⟨old, rfl, .inr ⟨by simp [appendedEvent, ha, adds, pending], rfl⟩⟩
  | reassigned old computerId pending =>
    exact ⟨old, rfl, .inl ⟨_, by simp [appendedEvent, ha, adds], pending, rfl⟩⟩
  | renewed old token leaseMs valid pending =>
    exact ⟨old, rfl, .inl ⟨_, by simp [appendedEvent, ha, adds], pending, rfl⟩⟩
  | recorded old event token valid pending =>
    exact ⟨old, rfl, .inl ⟨_, by simp [appendedEvent, ha, adds], pending, rfl⟩⟩
  | committed old outcome token valid pending =>
    exact ⟨old, rfl, .inr ⟨by simp [appendedEvent, ha, adds], rfl⟩⟩

theorem answeredPoll_record {id : RequestId}
    (hx : dispatchExec e.op e.input e.before = some (e.res, e.after)) {s : DispatchStatus}
    (ha : answeredPoll id e = some s) : ∃ r, recordAt id e.before = some r ∧ s = statusOf r := by
  obtain ⟨i, c, op, inp, r, before, after⟩ := e
  cases op with
  | fetchStatus k =>
    cases r with
    | error x => cases ha
    | ok status =>
      cases status with
      | none => cases ha
      | some st =>
        simp only [answeredPoll] at ha
        split_ifs at ha with hk
        cases ha
        subst hk
        simp only [dispatchExec, Option.some.injEq, Prod.mk.injEq] at hx
        have hst := guarded_ok hx.1
        split_ifs at hst
        obtain ⟨r, hr, rfl⟩ := Option.map_eq_some_iff.mp hst
        exact ⟨r, hr, rfl⟩
  | _ => cases ha

theorem answeredPoll_accepted {id : RequestId} {a : RecordUpdate × DurableDispatch × Bool}
    (ha : accepted id e = some a) :
    answeredPoll id e = none := by
  obtain ⟨u, out⟩ := a
  have hop := accepted_op ha
  obtain ⟨i, c, op, inp, r, before, after⟩ := e
  cases hop
  rfl

/-- What ties the record, the accepted events and the polls of a client together. -/
structure StreamLog (id : RequestId) (i : ℕ) (h : DispatchHist) : Prop where
  window : ∀ r, recordAt id h.shared = some r →
    r.events = lastN maxEventsPerChannel (acceptedEvents id h)
  seen : (polled id i h).map DispatchStatus.events =
    (acceptedAtPolls id i h).map (lastN maxEventsPerChannel)
  settled : ∀ s, (polled id i h).getLast? = some s → s.outcome.isSome →
    (acceptedAtPolls id i h).getLast? = some (acceptedEvents id h) ∧
    ∀ r, recordAt id h.shared = some r → r.outcome = s.outcome

variable {h : DispatchHist}

/-- A command that is not an accepted update, such as a poll. -/
theorem StreamLog.quiet {id : RequestId} {i : ℕ} (log : StreamLog id i h) (hb : e.before = h.shared)
    (hx : dispatchExec e.op e.input e.before = some (e.res, e.after)) (ha : accepted id e = none)
    (hs : ∀ r, recordAt id e.after = some r → recordAt id h.shared = some r) :
    StreamLog id i (h.push (.ran e) e.after) := by
  have hc := (not_creates_of_not_accepted ha).1
  have hacc : acceptedEvents id (h.push (.ran e) e.after) = acceptedEvents id h := by
    simp [acceptedEvents_ran hc, appendedEvent, ha]
  by_cases hpoll : e.thread = i ∧ (answeredPoll id e).isSome
  · obtain ⟨hi, hsome⟩ := hpoll
    obtain ⟨st, hst⟩ := Option.isSome_iff_exists.mp hsome
    obtain ⟨old, hold, rfl⟩ := answeredPoll_record hx hst
    rw [hb] at hold
    have hpolled : polled id i (h.push (.ran e) e.after) = polled id i h ++ [statusOf old] := by
      simp [polled_ran hc, hi, hst]
    have hlogs : acceptedAtPolls id i (h.push (.ran e) e.after) =
        acceptedAtPolls id i h ++ [acceptedEvents id h] := by
      simp [acceptedAtPolls_ran hc, hi, hsome]
    refine ⟨fun r hr => hacc ▸ log.window r (hs r hr), ?_, ?_⟩
    · rw [hpolled, hlogs, List.map_append, List.map_append, log.seen, List.map_singleton,
        List.map_singleton]
      exact congrArg (fun w => _ ++ [w]) (log.window old hold)
    · rw [hpolled, hlogs, List.getLast?_concat, List.getLast?_concat, hacc]
      rintro _ ⟨⟩ -
      refine ⟨rfl, fun r hr => ?_⟩
      cases hold.symm.trans (hs r hr)
      rfl
  · have hpolled : polled id i (h.push (.ran e) e.after) = polled id i h := by
      rw [polled_ran hc]
      split_ifs with hi
      · have : answeredPoll id e = none := by simpa [hi] using hpoll
        simp [this]
      · simp
    have hlogs : acceptedAtPolls id i (h.push (.ran e) e.after) = acceptedAtPolls id i h := by
      simp [acceptedAtPolls_ran hc, hpoll]
    refine ⟨fun r hr => hacc ▸ log.window r (hs r hr), by rw [hpolled, hlogs, log.seen], ?_⟩
    rw [hpolled, hlogs, hacc]
    exact fun st hlast ho => ⟨(log.settled st hlast ho).1,
      fun r hr => (log.settled st hlast ho).2 r (hs r hr)⟩

theorem StreamLog.ran {id : RequestId} {i : ℕ} {j : ℕ} {c : DispatchRequest} {op : DispatchOp}
    {inp : DispatchInput} {r : DispatchRes op} {s : DispatchShared} (log : StreamLog id i h)
    (hx : dispatchExec op inp h.shared = some (r, s)) :
    StreamLog id i (h.push (.ran ⟨j, c, op, inp, r, h.shared, s⟩) s) := by
  set e : DispatchEntry := ⟨j, c, op, inp, r, h.shared, s⟩ with he
  have hx' : dispatchExec e.op e.input e.before = some (e.res, e.after) := hx
  rcases dispatchEntry_cases id hx' with ⟨ha, -, hs⟩ | ⟨u, out, ha, -, hch, hs⟩ | ⟨ha, -, hs⟩
  · exact log.quiet (e := e) rfl hx' ha fun r' hr' => hs.symm.trans hr'
  · by_cases hc : creates id e = true
    · have hnew : sinceCreated id (h.push (.ran e) s) = [] := by simp [sinceCreated_ran, hc]
      have hpolled : polled id i (h.push (.ran e) s) = [] := by simp [polled, hnew]
      refine ⟨fun r' hr' => ?_, by simp [hpolled, acceptedAtPolls, hnew, logsAt], ?_⟩
      · cases hs.symm.trans hr'
        rcases change_lease ha hch with ⟨_, _, -, -, hrec⟩ | ⟨_, -, hn, -⟩ | ⟨_, -, hn, -⟩
        · simp [hrec, acceptedEvents, hnew, lastN]
        all_goals simp [hc] at hn
      · simp [hpolled]
    · have hc : creates id e = false := by simpa using hc
      have hnopoll := answeredPoll_accepted ha
      have hpolled : polled id i (h.push (.ran e) s) = polled id i h := by
        simp [polled_ran hc, hnopoll]
      have hlogs : acceptedAtPolls id i (h.push (.ran e) s) = acceptedAtPolls id i h := by
        simp [acceptedAtPolls_ran hc, hnopoll]
      obtain ⟨old, hold, hevents⟩ := appended_cases ha hch hc
      refine ⟨fun r' hr' => ?_, by rw [hpolled, hlogs, log.seen], ?_⟩
      · cases hs.symm.trans hr'
        rw [acceptedEvents_ran hc]
        rcases hevents with ⟨ev, hev, -, hout⟩ | ⟨hnone, hout⟩
        · rw [hout, log.window old hold, hev]
          exact lastN_push (maxEventsPerChannel - 1) _ ev
        · rw [hout, log.window old hold, hnone, Option.toList_none, List.append_nil]
      · rw [hpolled, hlogs]
        intro st hlast ho
        obtain ⟨hlast', hout⟩ := log.settled st hlast ho
        have hdone := hout old hold
        rcases hevents with ⟨ev, -, hpending, -⟩ | ⟨hnone, -⟩
        · rw [hdone] at hpending
          simp [hpending] at ho
        · refine ⟨by rw [hlast', acceptedEvents_ran hc, hnone, Option.toList_none, List.append_nil],
            fun r' hr' => ?_⟩
          rcases outcome_kept hx' hold (by rw [hdone]; exact ho) with ⟨-, hgone⟩ | hsame
          · cases hgone.symm.trans hr'
          · cases hsame.symm.trans hr'
            exact hdone
  · exact log.quiet (e := e) rfl hx' ha fun r' hr' => by cases hs.symm.trans hr'

variable {cfg : DispatchConfig}

theorem streamLog_reach (hr : Reach dispatchSystem emptyDispatches cfg) (id : RequestId) (i : ℕ) :
    StreamLog id i cfg.hist := by
  have same {h h' : DispatchHist} (log : StreamLog id i h) (he : h'.entries = h.entries)
      (hs : h'.shared = h.shared) : StreamLog id i h' := by
    obtain ⟨events, shared⟩ := h
    obtain ⟨events', shared'⟩ := h'
    cases hs
    have hsince : sinceCreated id ⟨events', shared⟩ = sinceCreated id ⟨events, shared⟩ := by
      simp only [sinceCreated, current, he]
    have hacc : acceptedEvents id ⟨events', shared⟩ = acceptedEvents id ⟨events, shared⟩ := by
      simp only [acceptedEvents, hsince]
    have hpolled : polled id i ⟨events', shared⟩ = polled id i ⟨events, shared⟩ := by
      simp only [polled, hsince]
    have hlogs : acceptedAtPolls id i ⟨events', shared⟩ =
        acceptedAtPolls id i ⟨events, shared⟩ := by
      simp only [acceptedAtPolls, hsince]
    exact ⟨hacc ▸ log.window, by rw [hpolled, hlogs, log.seen],
      by rw [hpolled, hlogs, hacc]; exact log.settled⟩
  refine Reach.invariant (I := StreamLog id i) ?_ ?_ ?_ ?_ hr
  · refine ⟨?_, ?_, ?_⟩ <;> simp [recordAt, emptyDispatches, polled, acceptedAtPolls, sinceCreated,
      current, Hist.entries, logsAt]
  · rintro h j c s log ⟨⟩
    exact same log (by simp) rfl
  · exact fun h j c op inp r s log hx => log.ran hx
  · exact fun h p log => same log (by simp) rfl

/-! What a client that returned did. -/

theorem pollFrom_ends {id : RequestId} {deadline : ℤ} {polls seen : ℕ}
    {yielded ys : List WorkerExecutionEvent} {o : ExecutionOutcome} {es : List DispatchEntry}
    (h : Ends (TaskDispatcher.pollFrom id deadline polls seen yielded) es (.ok (ys, o))) :
    ys = yielded ++ (readFrom seen ((es.filterMap (answeredPoll id)).map
      DispatchStatus.events)).filter (fun e => !TaskDispatcher.controlPlane e) ∧
    ∃ s, (es.filterMap (answeredPoll id)).getLast? = some s ∧ s.outcome = some o := by
  induction polls generalizing seen yielded es with
  | zero => cases (Ends.raise_iff.mp h).2
  | succ polls ih =>
    obtain ⟨i, c, inp, t, b, a, es₁, rfl, h₁⟩ := Ends.call_iff.mp h
    simp only [Prog.bind_ret] at h₁
    split_ifs at h₁
    · cases (Ends.raise_iff.mp h₁).2
    obtain ⟨i', c', inp', r, b', a', es₂, rfl, h₂⟩ := Ends.call_iff.mp h₁
    cases r with
    | error x => cases (Ends.raise_iff.mp h₂).2
    | ok status =>
      cases status with
      | none =>
        rw [List.filterMap_cons_none rfl, List.filterMap_cons_none rfl]
        exact ih h₂
      | some st =>
        have hanswer : answeredPoll id
            ⟨i', c', .fetchStatus id, inp', .ok (some st), b', a'⟩ = some st := by
          simp [answeredPoll]
        rw [List.filterMap_cons_none rfl, List.filterMap_cons_some hanswer, List.map_cons, readFrom,
          List.filter_append, ← List.append_assoc]
        simp only [Prog.resume_ok, Prog.bind_ret] at h₂
        cases ho : st.outcome with
        | some outcome =>
          simp only [ho] at h₂
          obtain ⟨rfl, hres⟩ := Ends.ret_iff.mp h₂
          cases hres
          exact ⟨by simp [readFrom], st, by simp, ho⟩
        | none =>
          simp only [ho] at h₂
          obtain ⟨hys, s, hlast, hs⟩ := ih h₂
          exact ⟨hys, s, by rw [List.getLast?_cons, hlast]; rfl, hs⟩

theorem dispatchRemote_ends {d : TaskDispatcher} {computerId : ComputerId}
    {request : WorkerExecutionRequest} {timeoutMs : ℤ} {polls : ℕ}
    {ys : List WorkerExecutionEvent} {o : ExecutionOutcome} {es : List DispatchEntry}
    (h : Ends (d.dispatchRemote computerId request timeoutMs polls) es (.ok (ys, o))) :
    ∃ es₁ e es₂, es = es₁ ++ e :: es₂ ∧ creates request.requestId e = true ∧
      (∀ e' ∈ es₂, creates request.requestId e' = false) ∧
      ys = (readFrom 0 ((es₂.filterMap (answeredPoll request.requestId)).map
        DispatchStatus.events)).filter (fun e => !TaskDispatcher.controlPlane e) ∧
      ∃ s, (es₂.filterMap (answeredPoll request.requestId)).getLast? = some s ∧
        s.outcome = some o := by
  rcases Ends.bind_iff.mp h with ⟨x, hx, -⟩ | ⟨es₁, es₂, result, rfl, hd, h₁⟩
  · cases hx
  cases result with
  | busy reason => cases (Ends.raise_iff.mp h₁).2
  | ok =>
    obtain ⟨es₃, e, es₄, rfl, hc, hset⟩ := dispatch_created hd
    obtain ⟨i, c, inp, r, b, a, es₅, rfl, h₂⟩ := Ends.call_iff.mp h₁
    cases r with
    | error x => cases (Ends.raise_iff.mp h₂).2
    | ok u =>
      obtain ⟨i', c', inp', t, b', a', es₆, rfl, h₃⟩ := Ends.call_iff.mp h₂
      simp only [Prog.bind_ret] at h₃
      obtain ⟨hys, hlast⟩ := pollFrom_ends h₃
      have hplain := (TaskDispatcher.pollFrom_plain request.requestId (t + timeoutMs) polls 0 []).mem h₃
      have hnone : es₄.filterMap (answeredPoll request.requestId) = [] := by
        refine List.filterMap_eq_nil_iff.mpr fun e' he' => ?_
        obtain ⟨ident, r, hop⟩ := hset e' he'
        obtain ⟨i₀, c₀, op₀, inp₀, r₀, b₀, a₀⟩ := e'
        cases hop
        rfl
      have hpolls : (es₄ ++ ⟨i, c, .response, inp, .ok u, b, a⟩ :: ⟨i', c', .now, inp', t, b', a'⟩ ::
          es₆ : List DispatchEntry).filterMap (answeredPoll request.requestId) =
            es₆.filterMap (answeredPoll request.requestId) := by
        rw [List.filterMap_append, hnone, List.nil_append, List.filterMap_cons_none rfl,
          List.filterMap_cons_none rfl]
      refine ⟨es₃, e, _, by rw [List.append_assoc, List.cons_append], hc, fun e' he' => ?_, ?_, ?_⟩
      · by_contra hcr
        obtain ⟨computerId', request', hop⟩ := creates_op (by simpa using hcr)
        simp only [List.mem_append, List.mem_cons] at he'
        rcases he' with he' | rfl | rfl | he'
        · obtain ⟨ident, r, hop'⟩ := hset e' he'
          rw [hop'] at hop
          cases hop
        · cases hop
        · cases hop
        · have := hplain e' he'
          rw [hop] at this
          exact this
      · rw [hpolls]
        exact hys
      · rw [hpolls]
        exact hlast

/-- The commands of the client since it created the record, when nobody else did since. -/
theorem sinceCreated_thread {id : RequestId} {i : ℕ} {es₁ es₂ : List DispatchEntry}
    (hes : h.entriesOf i = es₁ ++ e :: es₂) (hc : creates id e = true)
    (hes₂ : ∀ e' ∈ es₂, creates id e' = false)
    (alone : ∀ e ∈ h.since i, creates id e = true → e.thread = i) :
    (sinceCreated id h).filter (fun e => e.thread = i) = es₂ := by
  obtain ⟨pre, post, hev, hi, -, hpost⟩ := Hist.split_entriesOf_append hes
  have hent : h.entries.reverse = (post.filterMap Event.entry).reverse ++
      e :: (pre.filterMap Event.entry).reverse := by
    simp [Hist.entries, hev, Event.entry]
  have hnone : ∀ e' ∈ post.filterMap Event.entry, creates id e' = false := by
    intro e' he'
    by_contra hcr
    obtain ⟨ev, hmem, hent'⟩ := List.mem_filterMap.mp he'
    cases ev with
    | ran e'' =>
      cases hent'
      have hthread := alone e' (Hist.mem_since hev hi hmem) (by simpa using hcr)
      have : e' ∈ es₂ := by
        rw [← hpost]
        exact List.mem_filter.mpr ⟨he', by simpa using hthread⟩
      exact hcr (hes₂ e' this)
    | began j c => cases hent'
    | crashed p => cases hent'
  have hcur : current id h = (post.filterMap Event.entry).reverse := by
    rw [current, hent, List.takeWhile_append_of_pos (by simpa using hnone), List.takeWhile_cons]
    simp [hc]
  rw [sinceCreated, hcur, List.reverse_reverse, ← hpost]
  rfl

/-- What a client that returned had polled. -/
theorem streamed (hr : Reach dispatchSystem emptyDispatches cfg) {i process : ℕ}
    {d : TaskDispatcher} {computerId : ComputerId} {request : WorkerExecutionRequest}
    {timeoutMs : ℤ} {polls : ℕ} {yielded : List WorkerExecutionEvent} {outcome : ExecutionOutcome}
    (ht : cfg.threads[i]? = some ⟨⟨process, d, .dispatchRemote computerId request timeoutMs polls⟩,
      some (.ret (.streamed yielded outcome))⟩)
    (alone : ∀ e ∈ cfg.hist.since i, creates request.requestId e = true → e.thread = i) :
    yielded = (readFrom 0 ((acceptedAtPolls request.requestId i cfg.hist).map
      (lastN maxEventsPerChannel))).filter (fun e => !TaskDispatcher.controlPlane e) ∧
    (acceptedAtPolls request.requestId i cfg.hist).getLast? =
      some (acceptedEvents request.requestId cfg.hist) ∧
    (∃ e ∈ cfg.hist.entriesOf i, ∃ r, recordAt request.requestId e.before = some r ∧
      r.outcome = some outcome) ∧
    ∀ r, recordAt request.requestId cfg.hist.shared = some r → r.outcome = some outcome := by
  obtain ⟨res, hres, hends⟩ := Ends.map_iff.mp (hr.ends (o := .ok (.streamed yielded outcome)) ht)
  cases res with
  | error x => cases hres
  | ok ys =>
    cases hres
    obtain ⟨es₁, e, es₂, hes, hc, hes₂, hys, st, hlast, ho⟩ := dispatchRemote_ends hends
    have hpolled : polled request.requestId i cfg.hist =
        es₂.filterMap (answeredPoll request.requestId) := by
      rw [polled, sinceCreated_thread hes hc hes₂ alone]
    have log := streamLog_reach hr request.requestId i
    rw [← hpolled] at hys hlast
    obtain ⟨hfinal, hstored⟩ := log.settled st hlast (by simp [ho])
    refine ⟨by rw [hys, log.seen], hfinal, ?_, fun r hrec => (hstored r hrec).trans ho⟩
    have hmem : st ∈ es₂.filterMap (answeredPoll request.requestId) := by
      rw [← hpolled]
      exact List.mem_of_getLast? hlast
    obtain ⟨e', he', hst⟩ := List.mem_filterMap.mp hmem
    have hin : e' ∈ cfg.hist.entriesOf i := by
      rw [hes]
      exact List.mem_append_right _ (List.mem_cons_of_mem _ he')
    obtain ⟨r, hrec, rfl⟩ := answeredPoll_record
      (dispatch_executed hr (List.mem_of_mem_filter hin)) hst
    exact ⟨e', hin, r, hrec, ho⟩

/-- A client that returned yielded every event that was accepted for its request, once and in
order, exactly when all that it missed is of the control plane; and it returned the stored
outcome. -/
theorem stream_complete_iff {cfg : DispatchConfig} (hr : Reach dispatchSystem emptyDispatches cfg)
    {i process : ℕ} {d : TaskDispatcher} {computerId : ComputerId}
    {request : WorkerExecutionRequest} {timeoutMs : ℤ} {polls : ℕ}
    {yielded : List WorkerExecutionEvent} {outcome : ExecutionOutcome}
    (ht : cfg.threads[i]? = some ⟨⟨process, d, .dispatchRemote computerId request timeoutMs polls⟩,
      some (.ret (.streamed yielded outcome))⟩)
    (alone : ∀ e ∈ cfg.hist.since i, creates request.requestId e = true → e.thread = i) :
    (yielded = (acceptedEvents request.requestId cfg.hist).filter
        (fun e => !TaskDispatcher.controlPlane e) ↔
      ∀ e ∈ missed request.requestId i cfg.hist, TaskDispatcher.controlPlane e = true) ∧
    (∃ e ∈ cfg.hist.entriesOf i, ∃ r, recordAt request.requestId e.before = some r ∧
      r.outcome = some outcome) ∧
    ∀ r, recordAt request.requestId cfg.hist.shared = some r → r.outcome = some outcome := by
  obtain ⟨hys, hfinal, hstored⟩ := streamed hr ht alone
  refine ⟨?_, hstored⟩
  have hiff := readFrom_eq_iff (k := maxEventsPerChannel) (fun e => !TaskDispatcher.controlPlane e)
    (logsAt_chain (appendedEvent request.requestId)
      (fun e => e.thread = i && (answeredPoll request.requestId e).isSome) []
      (sinceCreated request.requestId cfg.hist))
  have hD : (acceptedAtPolls request.requestId i cfg.hist).getLastD [] =
      acceptedEvents request.requestId cfg.hist := by
    rw [List.getLastD_eq_getLast?, hfinal, Option.getD_some]
  simp only [List.length_nil, Nat.min_zero, List.drop_zero, Bool.not_eq_false'] at hiff
  rw [hys, ← hD]
  exact hiff

/-! A short stream that is complete, and one of more events than the window holds. -/

def tokenEvent : WorkerExecutionEvent := ⟨"e", .token, .str "x", 3⟩

def remoteCall : DispatchRequest := ⟨0, dispatcherOne, .dispatchRemote "pc" requestOne 1000000 2⟩

/-- Dispatched by the client and claimed. -/
def streamOpened : List (Action DispatchRequest ℕ DispatchInput) :=
  invoke .start :: steps 0 5 0 "" ++ .begin remoteCall :: steps 1 10 1 "" ++
    invoke (.claim "r" "pc") :: steps 2 2 2 "t1"

theorem stream_complete_short : ∃ cfg yielded, Reach dispatchSystem emptyDispatches cfg ∧
    cfg.threads[1]? = some ⟨remoteCall, some (.ret (.streamed yielded answered))⟩ ∧
    (acceptedEvents "r" cfg.hist).length = 2 ∧
    yielded = (acceptedEvents "r" cfg.hist).filter fun e => !TaskDispatcher.controlPlane e := by
  have h : ∃ cfg yielded, schedule dispatchSystem (streamOpened ++
      invoke (.recordEvent "r" tokenEvent "t1") :: steps 3 2 3 "" ++ steps 1 2 4 "" ++
      invoke (.commit "r" answered "t1") :: steps 4 3 5 "" ++ steps 1 2 6 "")
        (.start emptyDispatches) = some cfg ∧
      cfg.threads[1]? = some ⟨remoteCall, some (.ret (.streamed yielded answered))⟩ ∧
      (acceptedEvents "r" cfg.hist).length = 2 ∧ (missed "r" 1 cfg.hist).length = 0 ∧
      ∀ e ∈ cfg.hist.since 1, creates "r" e = true → e.thread = 1 :=
    ⟨_, _, rfl, rfl, by decide, by decide, by decide⟩
  obtain ⟨cfg, yielded, hrun, ht, htwo, hmissed, alone⟩ := h
  have hr := schedule_reach .start hrun
  refine ⟨cfg, yielded, hr, ht, htwo, (stream_complete_iff hr ht alone).1.mpr ?_⟩
  rw [show missed requestOne.requestId 1 cfg.hist = [] from List.length_eq_zero_iff.mp hmissed]
  simp

/-- The client waits for its first poll; `n` tokens have been accepted under the lease. -/
structure Streaming (n : ℕ) (cfg : DispatchConfig) : Prop where
  reach : Reach dispatchSystem emptyDispatches cfg
  alive : cfg.hist.dead = []
  client : cfg.threads[1]? = some ⟨remoteCall, some ((TaskDispatcher.pollFrom "r" 1000001 2 0 []).bind
    fun r => .ret (.streamed r.1 r.2))⟩
  record : ∃ r, recordAt "r" cfg.hist.shared = some r ∧ r.outcome = none ∧ r.request = requestOne ∧
    r.lease = some ⟨"t1", 30002⟩
  tokens : ∃ ev, acceptedEvents "r" cfg.hist = ev :: List.replicate n tokenEvent
  unpolled : acceptedAtPolls "r" 1 cfg.hist = []
  alone : ∀ e ∈ cfg.hist.since 1, creates "r" e = true → e.thread = 1

theorem streaming_opened : ∃ cfg, Streaming 0 cfg := by
  have h : ∃ cfg r, schedule dispatchSystem streamOpened (.start emptyDispatches) = some cfg ∧
      cfg.hist.dead = [] ∧ cfg.threads[1]? = some ⟨remoteCall,
        some ((TaskDispatcher.pollFrom "r" 1000001 2 0 []).bind
          fun r => .ret (.streamed r.1 r.2))⟩ ∧
      recordAt "r" cfg.hist.shared = some r ∧ r.outcome = none ∧ r.request = requestOne ∧
      r.lease = some ⟨"t1", 30002⟩ ∧
      (∃ ev, acceptedEvents "r" cfg.hist = [ev]) ∧ acceptedAtPolls "r" 1 cfg.hist = [] ∧
      ∀ e ∈ cfg.hist.since 1, creates "r" e = true → e.thread = 1 :=
    ⟨_, _, rfl, rfl, rfl, rfl, rfl, rfl, rfl, ⟨_, rfl⟩, rfl, by decide⟩
  obtain ⟨cfg, r, hrun, hdead, hclient, hr, ho, hreq, hl, hacc, hpolls, alone⟩ := h
  exact ⟨cfg, schedule_reach .start hrun, hdead, hclient, ⟨r, hr, ho, hreq, hl⟩, hacc, hpolls, alone⟩

theorem acceptedEvents_began (id : RequestId) (h : DispatchHist) (i : ℕ) (c : DispatchRequest)
    (s : DispatchShared) : acceptedEvents id (h.push (.began i c) s) = acceptedEvents id h := by
  simp [acceptedEvents, sinceCreated, current]

theorem acceptedAtPolls_began (id : RequestId) (h : DispatchHist) (i j : ℕ) (c : DispatchRequest)
    (s : DispatchShared) :
    acceptedAtPolls id j (h.push (.began i c) s) = acceptedAtPolls id j h := by
  simp [acceptedAtPolls, sinceCreated, current]

/-- A new call of the one dispatcher makes its first command. -/
theorem Streaming.called {n : ℕ} (st : Streaming n cfg) {c : DispatchCall} {op : DispatchOp}
    {next : DispatchRes op → DispatchProg DispatchReply}
    (hbody : c.body dispatcherOne = .call op next) {a : DispatchInput} {r : DispatchRes op}
    {s : DispatchShared} (hx : dispatchExec op a cfg.hist.shared = some (r, s))
    (hnew : ∀ e : DispatchEntry, e.op = op → creates "r" e = false ∧ answeredPoll "r" e = none) :
    ∃ cfg' e, Reach dispatchSystem emptyDispatches cfg' ∧ cfg'.hist.dead = [] ∧
      cfg'.threads[1]? = cfg.threads[1]? ∧ cfg'.hist.shared = s ∧
      e = (⟨cfg.threads.length, ⟨0, dispatcherOne, c⟩, op, a, r, cfg.hist.shared, s⟩ :
        DispatchEntry) ∧
      acceptedEvents "r" cfg'.hist = acceptedEvents "r" cfg.hist ++ (appendedEvent "r" e).toList ∧
      acceptedAtPolls "r" 1 cfg'.hist = [] ∧
      ∀ e ∈ cfg'.hist.since 1, creates "r" e = true → e.thread = 1 := by
  have hlen : 1 < cfg.threads.length := (List.getElem?_eq_some_iff.mp st.client).1
  set e : DispatchEntry := ⟨cfg.threads.length, ⟨0, dispatcherOne, c⟩, op, a, r,
    cfg.hist.shared, s⟩ with he
  obtain ⟨hcreate, hpoll⟩ := hnew e rfl
  have began := st.reach.step (Step.begin cfg ⟨0, dispatcherOne, c⟩ cfg.hist.shared
    (by simp [st.alive]) rfl)
  have ran := began.step (Step.run _ cfg.threads.length ⟨0, dispatcherOne, c⟩ op next a r s
    (by simp [dispatchSystem, hbody]) hx)
  refine ⟨_, e, ran, by simp [st.alive], ?_, rfl, rfl, ?_, ?_, fun e' he' hc => ?_⟩
  · rw [List.getElem?_set_ne (by omega), List.getElem?_append_left hlen]
  · exact (acceptedEvents_ran hcreate).trans (by rw [acceptedEvents_began])
  · refine (acceptedAtPolls_ran hcreate 1).trans ?_
    rw [acceptedAtPolls_began, st.unpolled, hpoll]
    simp
  · rcases Hist.since_ran he' with he' | rfl
    · exact st.alone e' (Hist.since_began he') hc
    · cases hcreate.symm.trans hc

theorem Streaming.next {n : ℕ} (st : Streaming n cfg) :
    ∃ cfg', Streaming (n + 1) cfg' := by
  obtain ⟨r, hr, ho, hreq, hl⟩ := st.record
  have happly : (RecordUpdate.recordEvent tokenEvent "t1").apply (fun _ => 3) ""
      (cfg.hist.shared.dispatches.lookup "r") = .ok (r.pushEvent tokenEvent, false) := by
    rw [show cfg.hist.shared.dispatches.lookup "r" = some r from hr]
    simp [RecordUpdate.apply, recordEventUpdate, validate, hl, ho, hreq, tokenEvent, requestOne,
      bind, Except.bind, Except.map, pure, Except.pure]
  obtain ⟨cfg', e, hreach, hdead, hclient, hshared, rfl, hacc, hpolls, alone⟩ :=
    st.called (c := .recordEvent "r" tokenEvent "t1") (a := ⟨fun _ => 3, "", none, false⟩)
      (r := .ok (r.pushEvent tokenEvent, false)) rfl (by simp [dispatchExec, guarded, happly]; rfl)
      fun e hop => by
        obtain ⟨i, c, op, inp, res, b, a⟩ := e
        cases hop
        cases res <;> simp [creates, accepted, answeredPoll]
  obtain ⟨ev, hev⟩ := st.tokens
  refine ⟨cfg', hreach, hdead, hclient.trans st.client, ⟨r.pushEvent tokenEvent, ?_, ho, hreq, hl⟩,
    ⟨ev, ?_⟩, hpolls, alone⟩
  · rw [hshared]
    simp [recordAt]
  · rw [hacc, hev, List.replicate_succ']
    simp [appendedEvent, accepted, adds]

theorem streaming (n : ℕ) : ∃ cfg, Streaming n cfg := by
  induction n with
  | zero => exact streaming_opened
  | succ n ih =>
    obtain ⟨cfg, st⟩ := ih
    exact st.next

/-- The result is committed, and the client polls once. -/
theorem Streaming.returns {n : ℕ} (st : Streaming n cfg) :
    ∃ cfg' yielded ev, Reach dispatchSystem emptyDispatches cfg' ∧
      cfg'.threads[1]? = some ⟨remoteCall, some (.ret (.streamed yielded answered))⟩ ∧
      acceptedEvents "r" cfg'.hist = ev :: List.replicate n tokenEvent ∧
      yielded = (lastN maxEventsPerChannel (acceptedEvents "r" cfg'.hist)).filter
        (fun e => !TaskDispatcher.controlPlane e) := by
  obtain ⟨r, hr, ho, hreq, hl⟩ := st.record
  have pending : repeated (some r) "t1" = none := by simp [repeated, Option.filter, ho]
  have valid : validate (some r) "t1" 4 = .ok r :=
    validate_ok.mpr ⟨rfl, by decide, _, hl, rfl, by decide⟩
  have happly : (RecordUpdate.commit answered "t1").apply (fun _ => 4) ""
      (cfg.hist.shared.dispatches.lookup "r") =
        .ok ({ r with outcome := some answered, completedAt := some 4 }, true) := by
    rw [show cfg.hist.shared.dispatches.lookup "r" = some r from hr]
    simp only [RecordUpdate.apply, commitUpdate, pending, valid]
    rfl
  obtain ⟨cfg', e, hreach, hdead, hclient, hshared, rfl, hacc, hpolls, alone⟩ :=
    st.called (c := .commit "r" answered "t1") (a := ⟨fun _ => 4, "", none, false⟩)
      (r := .ok ({ r with outcome := some answered, completedAt := some 4 }, true)) rfl
      (by simp [dispatchExec, guarded, happly]; rfl)
      fun e hop => by
        obtain ⟨i, c, op, inp, res, b, a⟩ := e
        cases hop
        cases res <;> simp [creates, accepted, answeredPoll]
  obtain ⟨ev, hev⟩ := st.tokens
  rw [st.client] at hclient
  have hrec : cfg'.hist.shared.dispatches.lookup "r" =
      some { r with outcome := some answered, completedAt := some 4 } := by simp [hshared]
  have hone : 1 < cfg'.threads.length := (List.getElem?_eq_some_iff.mp hclient).1
  have timed := hreach.step (Step.run cfg' 1 remoteCall .now _ ⟨fun _ => 5, "", none, false⟩
    (5 : ℤ) cfg'.hist.shared hclient rfl)
  have polled := timed.step (Step.run _ 1 remoteCall (.fetchStatus "r") _
    ⟨fun _ => 5, "", none, false⟩
    (.ok (some (statusOf { r with outcome := some answered, completedAt := some 4 })))
    cfg'.hist.shared (by rw [List.getElem?_set_self hone]; rfl)
    (by simp [dispatchSystem, dispatchExec, guarded, hrec]))
  refine ⟨_, _, ev, polled, by rw [List.getElem?_set_self (by simpa using hone)]; rfl, ?_, ?_⟩
  · refine (acceptedEvents_ran rfl).trans ?_
    rw [show appendedEvent "r" _ = none from rfl, Option.toList_none, List.append_nil]
    refine (acceptedEvents_ran rfl).trans ?_
    rw [show appendedEvent "r" _ = none from rfl, Option.toList_none, List.append_nil, hacc, hev]
    simp [appendedEvent, accepted, adds]
  · rw [← (streamLog_reach polled "r" 1).window _ hrec]
    rfl

/-- With more events than the window holds, the client returns without some it should yield. -/
theorem stream_truncated : ∃ cfg yielded, Reach dispatchSystem emptyDispatches cfg ∧
    cfg.threads[1]? = some ⟨remoteCall, some (.ret (.streamed yielded answered))⟩ ∧
    yielded ≠ (acceptedEvents "r" cfg.hist).filter fun e => !TaskDispatcher.controlPlane e := by
  obtain ⟨cfg₀, st⟩ := streaming (maxEventsPerChannel + 1)
  obtain ⟨cfg, yielded, ev, hr, ht, hacc, hys⟩ := st.returns
  refine ⟨cfg, yielded, hr, ht, fun heq => ?_⟩
  have hshort : yielded.length ≤ maxEventsPerChannel := by
    rw [hys]
    refine (List.length_filter_le _ _).trans ?_
    rw [length_lastN]
    exact min_le_left _ _
  have hlong : maxEventsPerChannel + 1 ≤ ((acceptedEvents "r" cfg.hist).filter
      fun e => !TaskDispatcher.controlPlane e).length := by
    have htokens : (List.replicate (maxEventsPerChannel + 1) tokenEvent).filter
        (fun e => !TaskDispatcher.controlPlane e) =
          List.replicate (maxEventsPerChannel + 1) tokenEvent :=
      List.filter_replicate_of_pos (by decide)
    rw [hacc, List.filter_cons]
    split_ifs <;> simp [htokens]
  rw [← heq] at hlong
  omega

end Wazir.Dispatch
