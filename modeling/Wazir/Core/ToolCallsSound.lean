import Wazir.Core.DispatchedOnce

/-! Tool calls over whole runs of one execution. `recordToolCall` is the one writer that does not
look at its call again after its fault hook; as long as no result of it contradicts what was confirmed
by then, every record keeps one outcome per call, and what the store once held stays. -/

namespace Wazir.Core

open Relation Wazir.Async

/-- The tool calls of the execution, as they stand in `cfg` and since they stood in `earlier`. -/
structure ToolCallsSound (earlier cfg : EngineConfig) : Prop where
  outcomes : ∀ r ∈ cfg.hist.shared.records, OneOutcome r.events
  kept : ∀ c ∈ toolCheckpoints earlier.hist.shared.durable.events, c.state.unresolved = false →
    ∀ r ∈ cfg.hist.shared.records, ∃ c' ∈ r.toolCheckpoints, c'.callId = c.callId ∧
      c'.state = c.state
  once : ∀ (i j : ℕ) (t t' : EngineThread) (callId : String),
    earlier.threads[i]? = some t ∨ cfg.threads[i]? = some t → cfg.threads[j]? = some t' →
    t.rest = some (.ret (.callId callId)) → t'.rest = some (.ret (.callId callId)) → i = j

section Runs

variable {host : EngineHost} {process : ℕ} {inJob : Bool} {acceptance : AcceptanceContract}
  {cfg cfg' : EngineConfig}

theorem ExecutionWorld.Everywhere.records {P : ExecutionRecord → Prop} {w : ExecutionWorld}
    (h : w.Everywhere P) : ∀ r ∈ w.records, P r := by
  intro r hr
  unfold ExecutionWorld.records at hr
  split at hr
  · rw [List.mem_singleton.mp hr]
    exact h.durable
  · rename_i m hup
    rcases List.mem_append.mp hr with hr | hr
    · rcases List.mem_cons.mp hr with rfl | hr
      · exact h.durable
      · exact h.pending m hup r hr
    · rw [List.mem_singleton.mp hr]
      exact h.memory m hup

theorem ExecutionWorld.Chain.durable {w : ExecutionWorld} (h : w.Chain) :
    ∀ r ∈ w.records, w.durable.events <+: r.events := by
  intro r hr
  unfold ExecutionWorld.Chain ExecutionWorld.records at h
  unfold ExecutionWorld.records at hr
  split at hr
  · rw [List.mem_singleton.mp hr]
  · rename_i m hup
    rw [hup] at h
    rw [List.cons_append] at hr
    rcases List.mem_cons.mp hr with rfl | hr
    · exact List.prefix_rfl
    · exact (List.pairwise_cons.mp h).1 r hr

theorem durable_step (h : Confirmed cfg) (hs : Step (engineSystem host) cfg cfg') :
    cfg.hist.shared.durable.events <+: cfg'.hist.shared.durable.events := by
  cases hs with
  | begin c s _ hadm =>
    rw [Hist.push_shared, engineAdmits_same hadm]
  | run i c op next inp r s _ hx => exact (engineExec_step hx).durable h.chain
  | crash p =>
    change _ <+: (ite _ _ _ : ExecutionWorld).durable.events
    split_ifs
    · exact List.prefix_rfl
    · exact List.prefix_rfl

theorem durable_steps
    (hr : Reach (engineSystem host) (createdWorld process inJob acceptance) cfg)
    (hs : ReflTransGen (Step (engineSystem host)) cfg cfg') :
    Reach (engineSystem host) (createdWorld process inJob acceptance) cfg' ∧
      cfg.hist.shared.durable.events <+: cfg'.hist.shared.durable.events := by
  induction hs with
  | refl => exact ⟨hr, List.prefix_rfl⟩
  | tail _ hs ih =>
    obtain ⟨hr', hkept⟩ := ih
    exact ⟨hr'.step hs, hkept.trans (durable_step (Confirmed.reached hr') hs)⟩

/-- A call that a thread has dispatched by now it had dispatched before the step, or nothing stored
then knows the call. -/
theorem owned_before (h : Confirmed cfg) (hs : Step (engineSystem host) cfg cfg') {j : ℕ}
    {t : EngineThread} {p : EngineProg EngineAnswer} {callId : String}
    (hj : cfg'.threads[j]? = some t) (hp : t.rest = some p) (howns : Owns callId p) :
    (∃ t₀ p₀, cfg.threads[j]? = some t₀ ∧ t₀.rest = some p₀ ∧ Owns callId p₀) ∨
      callId ∉ dispatchedIds cfg.hist.shared.durable.events := by
  cases hs with
  | begin c s _ _ =>
    rw [List.getElem?_append] at hj
    split_ifs at hj
    · exact .inl ⟨t, p, hj, hp, howns⟩
    · rw [List.mem_singleton.mp (List.mem_of_getElem? hj)] at hp
      cases hp
      exact absurd howns ((body_unsent host c).not_owns callId)
  | crash q =>
    rw [List.getElem?_map] at hj
    obtain ⟨t₀, ht₀, rfl⟩ := Option.map_eq_some_iff.mp hj
    unfold Thread.kill at hp
    split_ifs at hp
    exact .inl ⟨t₀, p, ht₀, hp, howns⟩
  | run i c op next inp r s hw hx =>
    by_cases hji : j = i
    · subst hji
      rw [List.getElem?_set_self (List.getElem?_eq_some_iff.mp hw).1] at hj
      cases hj
      cases hp
      have hmem := List.mem_of_getElem? hw
      rcases h.shape _ hmem _ rfl with hunsent | ⟨callId', howns'⟩
      · cases hunsent with
        | call _ _ _ rest => exact absurd howns ((rest r).not_owns callId)
        | dispatch tool input callId' options _ sent refused =>
          cases r with
          | error e => exact absurd howns ((refused e).not_owns callId)
          | ok ticket =>
            rcases h.home _ hmem _ rfl with ⟨_, hload⟩ | ⟨m, hup, -⟩
            · cases hload
            · change engineExec host _ inp cfg.hist.shared = some (_, s) at hx
              simp only [engineExec, hup, Option.some.injEq, Prod.mk.injEq] at hx
              obtain ⟨hfresh, -⟩ := dispatch_sends (w := cfg.hist.shared) hx.1
              rw [sent ticket] at howns
              obtain rfl := howns.unique (.inr ⟨ticket, rfl⟩)
              exact .inr fun hstored => hfresh (dispatchedIds_mono (h.chain.memory hup) hstored)
      · -- the thread waits for the write of its dispatch, and what it returns is that call
        refine .inl ⟨_, _, hw, rfl, ?_⟩
        rcases howns' with hret | ⟨ticket, hticket⟩
        · cases hret
        · have hsending := h.sending _ hmem ticket callId' (congrArg some hticket)
          have howner : Owns callId' (.call op next) := .inr ⟨ticket, hticket⟩
          cases hticket
          rcases (confirming_next hsending hx).2 with hunsent | hdispatched
          · exact absurd howns (hunsent.not_owns callId)
          · rwa [howns.unique hdispatched.owns]
    · rw [List.getElem?_set_ne (Ne.symm hji)] at hj
      exact .inl ⟨t, p, hj, hp, howns⟩

/-- Whoever has dispatched a call that an earlier caller was given is that caller, crashes and restarts
in between or not. -/
theorem dispatched_once {earlier cfg : EngineConfig}
    (hr : Reach (engineSystem host) (createdWorld process inJob acceptance) earlier)
    (hs : ReflTransGen (Step (engineSystem host)) earlier cfg) {i j : ℕ} {t t' : EngineThread}
    {p : EngineProg EngineAnswer} {callId : String} (hi : earlier.threads[i]? = some t)
    (ht : t.rest = some (.ret (.callId callId))) (hj : cfg.threads[j]? = some t')
    (hp : t'.rest = some p) (howns : Owns callId p) : i = j := by
  have hconfirmed := Confirmed.reached hr
  induction hs generalizing t' p with
  | refl => exact hconfirmed.once i j t t' _ p callId hi hj ht hp (.inl rfl) howns
  | tail hbefore hs ih =>
    obtain ⟨hr', hkept⟩ := durable_steps hr hbefore
    rcases owned_before (Confirmed.reached hr') hs hj hp howns with ⟨t₀, p₀, hj₀, hp₀, howns₀⟩ | hnew
    · exact ih hj₀ hp₀ howns₀
    · exact absurd (dispatchedIds_mono hkept
        (hconfirmed.stored t (List.mem_of_getElem? hi) callId ht)) hnew

/-- Events of other kinds dispatch nothing. -/
theorem dispatchedIds_others {log new : List ExecutionEvent}
    (hnew : ∀ e ∈ new, e.type ≠ .toolStarted) : dispatchedIds (log ++ new) = dispatchedIds log := by
  have hnone : dispatchedIds new = [] :=
    List.filterMap_eq_nil_iff.mpr fun e he => dispatchedId_other (hnew e he)
  rw [dispatchedIds, List.filterMap_append, ← dispatchedIds, ← dispatchedIds, hnone, List.append_nil]

/-- No step of a record dispatches a call again. -/
theorem dispatchedIds_step {rules : StepRules} {r r' : ExecutionRecord}
    (h : (dispatchedIds r.events).Nodup) (hs : RecordStep rules r r') :
    (dispatchedIds r'.events).Nodup := by
  have hpush : ∀ {e : ExecutionEvent}, e.type ≠ .toolStarted →
      (dispatchedIds (r.events ++ [e])).Nodup := by
    intro e he
    rwa [dispatchedIds_others fun e' he' => by rwa [List.mem_singleton.mp he']]
  cases hs with
  | framed _ events => rwa [events]
  | quiet now type data identity hquiet =>
    refine hpush fun heq => ?_
    rw [show type = _ from heq] at hquiet
    cases hquiet
  | started now call identity named fresh =>
    have hid : dispatchedId (r.newEvent now .toolStarted (.dispatch call) identity) =
        some call.callId := by
      simp [dispatchedId, ExecutionRecord.newEvent, named]
    change (dispatchedIds (r.events ++ [_])).Nodup
    rw [dispatchedIds_append, hid, Option.toList_some, List.nodup_append_comm]
    refine List.nodup_cons.mpr ⟨fun hmem => ?_, h⟩
    obtain ⟨c, hc, heq⟩ := mem_dispatchedIds.mp hmem
    exact fresh c hc heq
  | settled now type d identity result =>
    refine hpush fun heq => ?_
    rw [show type = _ from heq] at result
    rcases result with result | result <;> cases result
  | advanced _ new events _ told =>
    rw [events, dispatchedIds_others fun e he heq => ?_]
    · exact h
    · have htype := (told e he).2
      rw [heq] at htype
      rcases htype with htype | htype <;> cases htype
  | evidence => exact h
  | cleared => exact h
  | evaluated => exact h

/-- Every log, in memory or stored, has each call dispatched once. -/
theorem dispatched_reached
    (hr : Reach (engineSystem host) (createdWorld process inJob acceptance) cfg) :
    cfg.hist.shared.Everywhere fun r => (dispatchedIds r.events).Nodup := by
  have hstart : (dispatchedIds (createdRecord process inJob acceptance).events).Nodup := List.nodup_nil
  have hcond : cfg.hist.Always fun _ _ => True := fun _ _ _ _ => trivial
  refine everywhere_reached (fun r r' => dispatchedIds_step)
    (fun e m b _ _ _ _ => anyRules_allow m e.input.now b) ⟨hstart, fun m hm => ?_, fun m hm => ?_⟩ hr
    hcond
  · cases hm
    exact hstart
  · cases hm
    exact List.forall_mem_nil _

theorem created_oneOutcome : OneOutcome (createdRecord process inJob acceptance).events := by
  have hnil : OneOutcome [] := by
    refine ⟨?_, List.nodup_nil, fun early hearly => ?_⟩
    · intro c hc
      cases hc
    · rw [List.prefix_nil.mp hearly]
      intro c hc
      cases hc
  have : OneOutcome ([] ++ (createdRecord process inJob acceptance).events) :=
    hnil.others fun e he => by
      rw [List.mem_singleton.mp he]
      exact .inl rfl
  exact this

theorem outcomes_reached
    (hr : Reach (engineSystem host) (createdWorld process inJob acceptance) cfg)
    (hok : cfg.hist.Always fun _ e => consistent e = true) :
    cfg.hist.shared.Everywhere fun r => OneOutcome r.events := by
  have hstep : ∀ r r', OneOutcome r.events → RecordStep singleOutcome r r' → OneOutcome r'.events :=
    fun r r' h hs => h.step hs
  refine everywhere_reached hstep
    (fun e m b hcond hup hop _ => singleOutcome_allow hcond hup hop)
    ⟨created_oneOutcome, fun m hm => ?_, fun m hm => ?_⟩ hr hok
  · cases hm
    exact created_oneOutcome
  · cases hm
    exact List.forall_mem_nil _

end Runs

/-- In a run in which no result contradicts what was confirmed by then, each call has one outcome,
writes do not overlap and no call id is dispatched twice. -/
theorem toolCalls_sound (host : EngineHost) (process : ℕ) (inJob : Bool)
    (acceptance : AcceptanceContract) {earlier cfg : EngineConfig}
    (hr : Reach (engineSystem host) (createdWorld process inJob acceptance) earlier)
    (hs : ReflTransGen (Step (engineSystem host)) earlier cfg)
    (hok : cfg.hist.Always fun _ e => consistent e = true) : ToolCallsSound earlier cfg := by
  obtain ⟨hr', hkept⟩ := durable_steps hr hs
  have hconfirmed := Confirmed.reached hr'
  have houtcomes := (outcomes_reached hr' hok).records
  refine ⟨houtcomes, fun c hc hstate r hmem => ?_, fun i j t t' callId hi hj ht ht' => ?_⟩
  · exact (houtcomes r hmem).final _ (hkept.trans (hconfirmed.chain.durable r hmem)) c hc hstate
  · rcases hi with hi | hi
    · exact dispatched_once hr hs hi ht hj ht' (.inl rfl)
    · exact hconfirmed.once i j t t' _ _ callId hi hj ht ht' (.inl rfl) (.inl rfl)

/-! One run that meets the condition, and one that does not. -/

def plainEngineHost : EngineHost := ⟨id, id, fun _ => none, id⟩

def noCriteria : AcceptanceContract := ⟨[], []⟩

def writeCall (ok : Bool) : ToolCallRecord :=
  { id := "call-1", callId := some "call-1", tool := "write_file", input := "{}", output := none
    error := none, ok := ok, failureClass := none, policyEffect := .allow, policyRule := "default"
    durationMs := 5, time := 0, details := "{}" }

abbrev EngineAction := Action EngineRequest ℕ EngineInput

/-- A call of process 0 on thread `i`, with that many commands; the inputs are the defaults. -/
def engineCall (i : ℕ) (call : EngineCall) (commands : ℕ) : List EngineAction :=
  .begin ⟨0, call⟩ :: List.replicate commands (.run i {})

/-- `write_file` is dispatched, and the dispatch is written. -/
def dispatchWritten : List EngineAction :=
  engineCall 0 (.recordToolStart "write_file" "{}" { callId := some "call-1" }) 3 ++
    engineCall 1 .write 1 ++ [.run 0 {}]

def callStates (log : List ExecutionEvent) : List (String × ToolCallState) :=
  (toolCheckpoints log).map fun c => (c.callId, c.state)

/-- The call is reconciled as not applied, and its result comes all the same: what was confirmed as
failed is completed. -/
theorem lateResult_overrides : ∃ cfg : EngineConfig,
    Reach (engineSystem plainEngineHost) (createdWorld 0 false noCriteria) cfg ∧
      ¬ToolCallsSound cfg cfg := by
  have hrun : (schedule (engineSystem plainEngineHost) (dispatchWritten ++
      engineCall 2 (.reconcileToolCall "call-1" ⟨.notApplied, "no such file"⟩ "operator") 1 ++
      engineCall 3 (.recordToolCall (writeCall true) {}) 3)
      (.start (createdWorld 0 false noCriteria))).any (fun cfg =>
        cfg.hist.shared.engine.any fun m =>
          callStates (m.record.events.take 5) = [("call-1", .failed)] &&
            callStates m.record.events = [("call-1", .completed)]) = true := by
    decide
  obtain ⟨cfg, hr, hcheck⟩ := Reach.of_check hrun
  refine ⟨cfg, hr, fun hsound => ?_⟩
  obtain ⟨m, hup, hstates⟩ := (Option.any_eq_true _ _).mp hcheck
  simp only [Bool.and_eq_true, decide_eq_true_eq] at hstates
  obtain ⟨hearly, hlate⟩ := hstates
  have hone : OneOutcome m.record.events :=
    hsound.outcomes m.record (by simp [ExecutionWorld.records, hup])
  have hfailed : ("call-1", ToolCallState.failed) ∈ callStates (m.record.events.take 5) := by
    rw [hearly]
    exact List.mem_cons_self
  obtain ⟨c, hc, heq⟩ := List.mem_map.mp hfailed
  have hstate : c.state = .failed := congrArg Prod.snd heq
  obtain ⟨c', hc', hid, hsame⟩ :=
    hone.final _ (List.take_prefix 5 _) c hc (by rw [hstate]; rfl)
  have hcompleted : (c'.callId, c'.state) ∈ callStates m.record.events := List.mem_map.mpr ⟨c', hc', rfl⟩
  rw [hlate, hsame, hstate] at hcompleted
  simp at hcompleted

/-- The result comes first; the reconciliation that follows is refused, and the outcome stays over a
restart. -/
theorem toolCalls_sound_restarted : ∃ earlier cfg : EngineConfig,
    Reach (engineSystem plainEngineHost) (createdWorld 0 false noCriteria) earlier ∧
      callStates earlier.hist.shared.durable.events = [("call-1", .completed)] ∧
      cfg.hist.dead = [0] ∧ ToolCallsSound earlier cfg := by
  have hrun : ((schedule (engineSystem plainEngineHost) (dispatchWritten ++
      engineCall 2 (.recordToolCall (writeCall true) {}) 3 ++ engineCall 3 .write 1 ++
      engineCall 4 (.reconcileToolCall "call-1" ⟨.notApplied, "no such file"⟩ "operator") 1)
      (.start (createdWorld 0 false noCriteria))).any fun earlier =>
        callStates earlier.hist.shared.durable.events = [("call-1", .completed)] &&
          (schedule (engineSystem plainEngineHost)
            [.crash 0, .begin ⟨1, .startup false⟩, .run 5 {}, .run 5 { owner := .dead }] earlier).any
              fun cfg => cfg.hist.dead = [0] &&
                Hist.checkFrom (fun _ e => consistent e) [] cfg.hist.events) = true := by
    decide
  obtain ⟨earlier, hr, hcheck⟩ := Reach.of_check hrun
  obtain ⟨hstates, hlater⟩ := (Bool.and_eq_true _ _).mp hcheck
  obtain ⟨cfg, hrest, hafter⟩ := (Option.any_eq_true _ _).mp hlater
  simp only [Bool.and_eq_true, decide_eq_true_eq] at hafter
  exact ⟨earlier, cfg, hr, of_decide_eq_true hstates, hafter.1,
    toolCalls_sound plainEngineHost 0 false noCriteria hr (schedule_steps hrest)
      (Hist.always_of_check (fun _ _ => id) hafter.2)⟩

/-- What was written is in every later record, in memory or stored, and an id is given out to one caller
only, once its dispatch is written: whoever has it now is the caller that had it earlier, though that
one's process may have died since. -/
structure WrittenAhead (earlier cfg : EngineConfig) : Prop where
  kept : ∀ r ∈ cfg.hist.shared.records, earlier.hist.shared.durable.events <+: r.events
  written : ∀ (i : ℕ) (c : EngineRequest) (callId : String),
    cfg.threads[i]? = some ⟨c, some (.ret (.callId callId))⟩ →
      callId ∈ dispatchedIds cfg.hist.shared.durable.events
  once : ∀ (i j : ℕ) (c d : EngineRequest) (callId : String),
    earlier.threads[i]? = some ⟨c, some (.ret (.callId callId))⟩ ∨
      cfg.threads[i]? = some ⟨c, some (.ret (.callId callId))⟩ →
    cfg.threads[j]? = some ⟨d, some (.ret (.callId callId))⟩ → i = j
  logged : ∀ r ∈ cfg.hist.shared.records, (dispatchedIds r.events).Nodup

/-- Over any run, with crashes and restarts anywhere. -/
theorem dispatches_writtenAhead (host : EngineHost) (process : ℕ) (inJob : Bool)
    (acceptance : AcceptanceContract) {earlier cfg : EngineConfig}
    (hr : Reach (engineSystem host) (createdWorld process inJob acceptance) earlier)
    (hs : ReflTransGen (Step (engineSystem host)) earlier cfg) : WrittenAhead earlier cfg := by
  obtain ⟨hr', hkept⟩ := durable_steps hr hs
  have hconfirmed := Confirmed.reached hr'
  refine ⟨fun r hmem => hkept.trans (hconfirmed.chain.durable r hmem), fun i c callId ht => ?_,
    fun i j c d callId hi hj => ?_, (dispatched_reached hr').records⟩
  · exact hconfirmed.stored _ (List.mem_of_getElem? ht) callId rfl
  · rcases hi with hi | hi
    · exact dispatched_once hr hs hi rfl hj rfl (.inl rfl)
    · exact hconfirmed.once i j _ _ _ _ callId hi hj rfl rfl (.inl rfl) (.inl rfl)

/-- The id that a caller was given. -/
def givenId (cfg : EngineConfig) (i : ℕ) : Option String :=
  match cfg.returned i with
  | some (_, .callId callId) => some callId
  | _ => none

/-- The process dies; another starts up and dispatches a call of its own. -/
def dispatchedAgain : List EngineAction :=
  [.crash 0, .begin ⟨1, .startup false⟩, .run 2 {}, .run 2 { owner := .dead }, .begin ⟨1, .write⟩,
    .run 3 {}, .run 2 {}, .begin ⟨1, .recordToolStart "read_file" "{}"
      { callId := some "call-2", sideEffectClass := some .readOnly }⟩, .run 4 {}, .run 4 {}, .run 4 {},
    .begin ⟨1, .write⟩, .run 5 {}, .run 4 {}]

/-- A caller is given an id and dies; over the restart the id stays its own. -/
theorem dispatches_writtenAhead_restarted : ∃ earlier cfg : EngineConfig,
    givenId earlier 0 = some "call-1" ∧ cfg.hist.dead = [0] ∧ givenId cfg 4 = some "call-2" ∧
      WrittenAhead earlier cfg := by
  have hrun : ((schedule (engineSystem plainEngineHost) dispatchWritten
      (.start (createdWorld 0 false noCriteria))).any fun earlier =>
        givenId earlier 0 = some "call-1" &&
          (schedule (engineSystem plainEngineHost) dispatchedAgain earlier).any fun cfg =>
            cfg.hist.dead = [0] && givenId cfg 4 = some "call-2") = true := by
    decide
  obtain ⟨earlier, hr, hcheck⟩ := Reach.of_check hrun
  obtain ⟨hgiven, hlater⟩ := (Bool.and_eq_true _ _).mp hcheck
  obtain ⟨cfg, hrest, hafter⟩ := (Option.any_eq_true _ _).mp hlater
  simp only [Bool.and_eq_true, decide_eq_true_eq] at hafter
  exact ⟨earlier, cfg, of_decide_eq_true hgiven, hafter.1, hafter.2,
    dispatches_writtenAhead _ _ _ _ hr (schedule_steps hrest)⟩

end Wazir.Core
