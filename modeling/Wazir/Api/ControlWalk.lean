import Wazir.Api.ControlReplay

/-! The procedures of the API's event log, one run at a time. -/

namespace Wazir.Api

open Wazir.Async Wazir.Goals

variable {event : GoalStudioEvent}

section Walk

variable (atomic : Bool) (maxRead : ℕ) (runId : GoalRunId)

abbrev logContract : Contract LogOp LogRes LogRequest ℕ EventInput LogStore where
  Ok h := h.Always (InOrder runId)
  Inv := RunInv runId
  Rely i _ := RunKept runId i

abbrev LogSafe {α : Type} (i : ℕ) (c : LogRequest) (Q : Except Thrown α → LogHist → Prop)
    (p : LogProg α) (h : LogHist) : Prop :=
  Safe (logSystem atomic maxRead) (logContract runId) i c Q p h

variable {atomic maxRead runId} {h h' : LogHist} {i : ℕ} {c : LogRequest} {op : LogOp}
  {inp : EventInput} {r : LogRes op} {s' : LogStore} {α : Type}

theorem numbers_grow {new : List LogEntry} (he : h'.entries = h.entries ++ new) :
    numbers runId h <+: numbers runId h' := by
  rw [numbers, numbers, he, List.filterMap_append]
  exact List.prefix_append _ _

theorem RunKept.numbers_le {h h' : LogHist} (hk : RunKept runId i h h') :
    numbers runId h <+: numbers runId h' := by
  obtain ⟨new, he, -⟩ := hk.grows
  exact numbers_grow he

theorem runKept_refl (i : ℕ) (h : LogHist) : RunKept runId i h h :=
  ⟨⟨[], by simp⟩, fun _ _ hk => hk, fun _ _ hk => hk⟩

theorem RunKept.trans {h₁ h₂ h₃ : LogHist} (h₁₂ : RunKept runId i h₁ h₂)
    (h₂₃ : RunKept runId i h₂ h₃) : RunKept runId i h₁ h₃ := by
  obtain ⟨new, he, hi⟩ := h₁₂.grows
  obtain ⟨new', he', hi'⟩ := h₂₃.grows
  refine ⟨⟨new ++ new', by rw [he', he, List.append_assoc], fun e hmem => ?_⟩,
    fun k v hk => h₂₃.kept k v (h₁₂.kept k v hk), fun k hk hv => ?_⟩
  · rcases List.mem_append.mp hmem with hmem | hmem
    · exact hi e hmem
    · exact hi' e hmem
  · exact h₂₃.vacant k (h₁₂.numbers_le.subset hk) (h₁₂.vacant k hk hv)

/-- One step restores the invariant and keeps what the others count on. -/
theorem log_up (inv : RunInv runId h) (hx : logExec op inp h.shared = some (r, s'))
    (hok : (h.ran i c op inp r s').Always (InOrder runId))
    (hallowed : Allowed runId h ⟨i, c, op, inp, r, h.shared, s'⟩) :
    RunInv runId (h.ran i c op inp r s') ∧
      ∀ j (_ : LogRequest), j ≠ i → RunKept runId j h (h.ran i c op inp r s') := by
  obtain ⟨hinv, hkept, hvacant⟩ := inv.ran hx (hok.last rfl) hallowed
  refine ⟨hinv, fun j _ hij => ⟨⟨_, logEntries_ran, by simpa using hij.symm⟩, hkept,
    fun k hk hv => hvacant k hv fun hk' => hij (inv.owner hk hk')⟩⟩

/-- A step that writes nothing of the run. -/
theorem Allowed.quiet (hn : ∀ k, numbering ⟨i, c, op, inp, r, h.shared, s'⟩ ≠ some (runId, k))
    (hs : ∀ event, storing ⟨i, c, op, inp, r, h.shared, s'⟩ ≠ some (runId, event)) :
    Allowed runId h ⟨i, c, op, inp, r, h.shared, s'⟩ :=
  ⟨fun event hstore => absurd hstore (hs event), fun k hnum => absurd hnum (hn k)⟩

/-- The run a step writes for. -/
def LogOp.writesFor : LogOp → Option GoalRunId
  | .updateHead runId _ | .putHead runId _ | .putEvent runId _ => some runId
  | _ => none

theorem quiet_of_writesFor (hop : op.writesFor ≠ some runId) :
    Allowed runId h ⟨i, c, op, inp, r, h.shared, s'⟩ := by
  cases op with
  | updateHead other floor =>
    have hne : other ≠ runId := fun heq => hop (congrArg some heq)
    exact .quiet (by cases hl : inp.lands <;> simp [numbering, hl, hne]) (by simp [storing])
  | putHead other seq =>
    have hne : other ≠ runId := fun heq => hop (congrArg some heq)
    exact .quiet (by cases hl : inp.lands <;> simp [numbering, hl, hne]) (by simp [storing])
  | putEvent other event =>
    have hne : other ≠ runId := fun heq => hop (congrArg some heq)
    exact .quiet (by simp [numbering]) (by cases hl : inp.lands <;> simp [storing, hl, hne])
  | join | turn | leave | clock | getHead | list =>
    exact .quiet (by simp [numbering]) (by simp [storing])

/-- Procedures that write nothing of the run. -/
theorem others_safe {p : LogProg α} (hp : p.Only fun op => op.writesFor ≠ some runId)
    (h : LogHist) : LogSafe atomic maxRead runId i c (fun _ _ => True) p h :=
  Safe.of_only (fun _ _ _ _ _ hop hinv hx hok => log_up hinv hx hok (quiet_of_writesFor hop)) hp h

/-- A step that writes nothing, and what the thread has seen of the others before it. -/
theorem aside_safe {next : LogRes op → LogProg α} {Q : Except Thrown α → LogHist → Prop}
    (hop : op.writesFor = none)
    (hnext : ∀ h₁ inp r s₁, RunKept runId i h h₁ → RunInv runId h₁ →
      logExec op inp h₁.shared = some (r, s₁) →
      LogSafe atomic maxRead runId i c Q (next r) (h₁.ran i c op inp r s₁)) :
    LogSafe atomic maxRead runId i c Q (.call op next) h := by
  intro h₁ inp r s₁ hkept hinv hx hok
  obtain ⟨hinv', hothers⟩ := log_up hinv hx hok (quiet_of_writesFor (by rw [hop]; exact nofun))
  exact ⟨hinv', hothers, hnext h₁ inp r s₁ hkept hinv hx⟩

/-! What a thread knows. -/

theorem lastHead_rely (hk : RunKept runId i h h') : lastHead h' i = lastHead h i := by
  obtain ⟨new, he, hi⟩ := hk.grows
  have hnone : new.filter (fun e => decide (e.thread = i)) = [] :=
    List.filter_eq_nil_iff.mpr fun e hmem => by simpa using hi e hmem
  rw [lastHead, lastHead, Hist.entriesOf, Hist.entriesOf, he, List.filter_append, hnone,
    List.append_nil]

theorem lastHead_ran : lastHead (h.ran i c op inp r s') i =
    (headRead ⟨i, c, op, inp, r, h.shared, s'⟩).or (lastHead h i) := by
  rw [lastHead, Hist.ran, Hist.entriesOf_push_ran, if_pos rfl, List.filterMap_append]
  cases hread : headRead ⟨i, c, op, inp, r, h.shared, s'⟩ with
  | none => simp [lastHead, hread]
  | some head => simp [hread]

/-- The thread has a number of the run under which nothing is stored yet. -/
structure Holds (runId : GoalRunId) (i : ℕ) (seq : ℕ) (h : LogHist) : Prop where
  mem : (i, seq) ∈ numbers runId h
  vacant : h.shared.slot runId seq = none

theorem Holds.rely {seq : ℕ} (hh : Holds runId i seq h) (hk : RunKept runId i h h') :
    Holds runId i seq h' :=
  ⟨hk.numbers_le.subset hh.mem, hk.vacant seq hh.mem hh.vacant⟩

/-- The event is stored under its number, and the thread has stored it. -/
structure Stored (runId : GoalRunId) (i : ℕ) (event : GoalStudioEvent) (h : LogHist) : Prop where
  mem : (i, event.seq) ∈ numbers runId h
  slot : h.shared.slot runId event.seq = some (.event event)
  entry : ∃ e ∈ h.entries, e.thread = i ∧ storing e = some (runId, event)

theorem Stored.rely (hs : Stored runId i event h) (hk : RunKept runId i h h') :
    Stored runId i event h' := by
  obtain ⟨new, he, -⟩ := hk.grows
  obtain ⟨e, hmem, hrest⟩ := hs.entry
  exact ⟨hk.numbers_le.subset hs.mem, hk.kept _ _ hs.slot,
    e, by rw [he]; exact List.mem_append_left _ hmem, hrest⟩

/-- The thread's own steps that write nothing leave what it knows. -/
theorem ran_kept (hx : logExec op inp h.shared = some (r, s')) (hop : op.writesFor = none) :
    (h.ran i c op inp r s').shared.values = h.shared.values ∧
      numbers runId h <+: numbers runId (h.ran i c op inp r s') := by
  refine ⟨?_, numbers_grow logEntries_ran⟩
  cases op with
  | updateHead | putHead | putEvent => cases hop
  | turn ticket =>
    simp only [logExec] at hx
    split_ifs at hx
    cases hx
    rfl
  | join | leave | clock | getHead | list =>
    cases hx
    rfl

theorem Holds.ran {seq : ℕ} (hh : Holds runId i seq h)
    (hx : logExec op inp h.shared = some (r, s')) (hop : op.writesFor = none) :
    Holds runId i seq (h.ran i c op inp r s') := by
  obtain ⟨hvalues, hnumbers⟩ : _ ∧ numbers runId h <+: numbers runId (h.ran i c op inp r s') :=
    ran_kept hx hop
  exact ⟨hnumbers.subset hh.mem, by rw [LogStore.slot, hvalues]; exact hh.vacant⟩

theorem Stored.ran (hh : Stored runId i event h) (hx : logExec op inp h.shared = some (r, s'))
    (hop : op.writesFor = none) :
    Stored runId i event (h.ran i c op inp r s') := by
  obtain ⟨hvalues, hnumbers⟩ : _ ∧ numbers runId h <+: numbers runId (h.ran i c op inp r s') :=
    ran_kept hx hop
  obtain ⟨e, hmem, hrest⟩ := hh.entry
  exact ⟨hnumbers.subset hh.mem, by rw [LogStore.slot, hvalues]; exact hh.slot,
    e, by rw [logEntries_ran]; exact List.mem_append_left _ hmem, hrest⟩

/-! What is listed for a run. -/

theorem mem_list (inv : RunInv runId h) {v : Logged} :
    v ∈ h.shared.list (eventPrefix runId) ↔ ∃ k, h.shared.slot runId k = some v := by
  simp only [LogStore.list, List.mem_map, List.mem_filter, List.isPrefixOf_iff_prefix]
  constructor
  · rintro ⟨⟨key, v⟩, ⟨hmem, hpre⟩, rfl⟩
    have hlookup : h.shared.values.lookup key = some v := AList.mem_lookup_iff.mpr hmem
    obtain ⟨k, rfl⟩ := inv.listed key (AList.lookup_isSome.mp (by rw [hlookup]; rfl)) hpre
    exact ⟨k, hlookup⟩
  · rintro ⟨k, hk⟩
    exact ⟨⟨eventKey runId k, v⟩, ⟨AList.mem_lookup_iff.mp hk, eventPrefix_eventKey⟩, rfl⟩

theorem floor_le (inv : RunInv runId h) :
    (h.shared.list (eventPrefix runId)).foldl
      (fun m entry => if m < entry.seq then entry.seq else m) 0 ≤ (numbers runId h).length := by
  have bound : ∀ (l : List Logged) (m n : ℕ), m ≤ n → (∀ e ∈ l, e.seq ≤ n) →
      l.foldl (fun m entry => if m < entry.seq then entry.seq else m) m ≤ n := by
    intro l
    induction l with
    | nil => exact fun m n hm _ => hm
    | cons e rest ih =>
      intro m n hm hl
      rw [List.forall_mem_cons] at hl
      refine ih _ n ?_ hl.2
      dsimp only
      split_ifs
      · exact hl.1
      · exact hm
  refine bound _ 0 _ (Nat.zero_le _) fun v hv => ?_
  obtain ⟨k, hk⟩ := (mem_list inv).mp hv
  obtain ⟨event, rfl, rfl⟩ := inv.events k v hk
  obtain ⟨m, hm, hstored⟩ := inv.stored
  have := (hstored _).mp (by rw [hk]; rfl)
  exact this.2.trans hm

/-- The next number has nothing stored under it. -/
theorem next_vacant (inv : RunInv runId h) :
    h.shared.slot runId ((numbers runId h).length + 1) = none := by
  obtain ⟨m, hm, hstored⟩ := inv.stored
  rw [← Option.not_isSome_iff_eq_none, hstored]
  omega

theorem head_getD (inv : RunInv runId h) :
    (h.shared.head runId).getD 0 = (numbers runId h).length := by
  cases hhead : h.shared.head runId with
  | none => rw [inv.absent hhead]; rfl
  | some k => exact inv.head k hhead

/-! Giving out a number. -/

theorem Holds.of_numbering {seq : ℕ} (inv : RunInv runId h)
    (hx : logExec op inp h.shared = some (r, s'))
    (hn : numbering ⟨i, c, op, inp, r, h.shared, s'⟩ = some (runId, seq))
    (hnext : seq = (numbers runId h).length + 1) : Holds runId i seq (h.ran i c op inp r s') := by
  have hwrote : Wrote ⟨i, c, op, inp, r, h.shared, s'⟩ := logExec_wrote hx
  cases hwrote with
  | nothing hnone | store _ _ hnone => rw [hnone] at hn; cases hn
  | number other k hn' _ _ hv =>
    cases hn'.symm.trans hn
    refine ⟨?_, ?_⟩
    · rw [numbers_ran, hn]
      simp [Option.filter]
    · show s'.values.lookup _ = none
      rw [show s'.values = _ from hv, AList.lookup_insert_ne headKey_ne_eventKey.symm, hnext]
      exact next_vacant inv

theorem updateHead_safe {floor : ℕ} (hfloor : floor ≤ (numbers runId h).length) :
    LogSafe atomic maxRead runId i c (fun out h => ∀ seq, out = .ok seq → Holds runId i seq h)
      (.call (.updateHead runId floor) .resume) h := by
  intro h₁ inp r s₁ hkept hinv hx hok
  have hfloor := hfloor.trans hkept.numbers_le.length_le
  have hnext : nextHead (h₁.shared.head runId) floor = (numbers runId h₁).length + 1 := by
    rw [nextHead, head_getD hinv, Nat.max_eq_left hfloor]
  have hnumber : ∀ k, numbering ⟨i, c, .updateHead runId floor, inp, r, h₁.shared, s₁⟩ =
      some (runId, k) → k = (numbers runId h₁).length + 1 := by
    intro k hk
    simp only [numbering] at hk
    split_ifs at hk
    cases hk
    exact hnext
  obtain ⟨hinv', hothers⟩ := log_up hinv hx hok ⟨by rintro _ ⟨⟩, hnumber⟩
  refine ⟨hinv', hothers, ?_⟩
  cases hfault : inp.fault with
  | some x =>
    have : r = .error x := by
      cases hx
      rw [hfault]
      rfl
    rw [this]
    rintro _ ⟨⟩
  | none =>
    have hr : r = .ok (nextHead (h₁.shared.head runId) floor) := by
      cases hx
      rw [hfault]
      rfl
    rw [hr] at hx ⊢
    intro seq hseq
    cases hseq
    exact .of_numbering hinv hx (by simp [numbering, EventInput.lands, hfault]) hnext

theorem putHead_safe {existing : Option ℕ} {floor : ℕ}
    (hread : lastHead h i = some (runId, existing))
    (hfloor : floor ≤ (numbers runId h).length) :
    LogSafe atomic maxRead runId i c
      (fun out h => out = .ok () → Holds runId i (nextHead existing floor) h)
      (.call (.putHead runId (nextHead existing floor)) .resume) h := by
  intro h₁ inp r s₁ hkept hinv hx hok
  have hfloor := hfloor.trans hkept.numbers_le.length_le
  have hnext : inp.lands = true → nextHead existing floor = (numbers runId h₁).length + 1 := by
    intro hlands
    have hsame := (hok.last rfl).unchanged _ rfl hlands
    rw [lastHead_rely hkept, hread] at hsame
    cases hsame
    rw [nextHead, head_getD hinv, Nat.max_eq_left hfloor]
  have hnumber : ∀ k, numbering ⟨i, c, .putHead runId (nextHead existing floor), inp, r, h₁.shared,
      s₁⟩ = some (runId, k) → k = (numbers runId h₁).length + 1 := by
    intro k hk
    simp only [numbering] at hk
    split_ifs at hk with hlands
    cases hk
    exact hnext hlands
  obtain ⟨hinv', hothers⟩ := log_up hinv hx hok ⟨by rintro _ ⟨⟩, hnumber⟩
  refine ⟨hinv', hothers, ?_⟩
  cases hfault : inp.fault with
  | some x =>
    have : r = .error x := by
      cases hx
      rw [hfault]
      rfl
    rw [this]
    rintro ⟨⟩
  | none =>
    have hr : r = .ok () := by
      cases hx
      rw [hfault]
      rfl
    rw [hr] at hx ⊢
    have hlands : inp.lands = true := by simp [EventInput.lands, hfault]
    exact fun _ => .of_numbering hinv hx (by simp [numbering, hlands]) (hnext hlands)

/-- An append that returns a number holds it. -/
theorem nextSeq_safe : LogSafe atomic maxRead runId i c
    (fun out h => ∀ seq, out = .ok seq → Holds runId i seq h)
    (StoreGoalEventLog.nextSeq atomic runId) h := by
  refine aside_safe rfl fun h₁ inp r s₁ _ hinv₁ hx => ?_
  cases r with
  | error x => exact fun _ => nofun
  | ok existing =>
  have hread : lastHead (h₁.ran i c (.getHead runId) inp (.ok existing) s₁) i =
      some (runId, existing) := by
    rw [lastHead_ran]
    rfl
  -- the rest, from a head that was read and a floor that is not too high
  have allocate : ∀ (floor : ℕ) (h₂ : LogHist), lastHead h₂ i = some (runId, existing) →
      floor ≤ (numbers runId h₂).length → LogSafe atomic maxRead runId i c
        (fun out h => ∀ seq, out = .ok seq → Holds runId i seq h)
        (if atomic then .call (.updateHead runId floor) .resume
        else (.call (.putHead runId (nextHead existing floor)) .resume : LogProg Unit).bind
          fun _ => .ret (nextHead existing floor)) h₂ := by
    intro floor h₂ hlast hfloor
    split_ifs
    · exact updateHead_safe hfloor
    · refine (putHead_safe hlast hfloor).bind (fun _ h₃ hholds => ?_) fun _ _ _ _ => nofun
      rintro seq ⟨⟩
      exact hholds rfl
  by_cases hsome : existing.isSome = true
  · simp only [Prog.bind_def, Prog.resume_ok, Prog.bind_ret, hsome, if_true, Prog.pure_def]
    exact allocate 0 _ hread (Nat.zero_le _)
  · simp only [Prog.bind_def, Prog.resume_ok, Prog.bind_ret, hsome, Prog.pure_def]
    refine aside_safe rfl fun h₂ inp₂ r₂ s₂ hkept₂ hinv₂ hx₂ => ?_
    cases r₂ with
    | error x => exact fun _ => nofun
    | ok listed =>
      refine allocate _ _ ?_ ?_
      · rw [lastHead_ran, lastHead_rely hkept₂, hread]
        rfl
      · have hlisted : listed = h₂.shared.list (eventPrefix runId) := by
          simp only [logExec, Option.some.injEq, Prod.mk.injEq] at hx₂
          exact (guarded_ok hx₂.1).symm
        rw [hlisted]
        exact (floor_le hinv₂).trans (numbers_grow logEntries_ran).length_le

/-! Appending. -/

theorem timestampOr_safe {timestamp : Option String} {seq : ℕ} (hh : Holds runId i seq h) :
    LogSafe atomic maxRead runId i c (fun _ h => Holds runId i seq h)
      (StoreGoalEventLog.timestampOr timestamp) h := by
  cases timestamp with
  | some t => exact hh
  | none =>
    refine aside_safe rfl fun h₁ inp r s₁ hkept _ hx => ?_
    have hh := (hh.rely hkept).ran hx rfl (c := c)
    simp only [Prog.bind_ret]
    cases r.toISOString <;> exact hh

/-- The event is stored under the number that its thread holds. -/
theorem putEvent_safe (hh : Holds runId i event.seq h) :
    LogSafe atomic maxRead runId i c (fun out h => out = .ok () → Stored runId i event h)
      (.call (.putEvent runId event) .resume) h := by
  intro h₁ inp r s₁ hkept hinv hx hok
  have hh := hh.rely hkept
  have hown : ∀ other, storing ⟨i, c, .putEvent runId event, inp, r, h₁.shared, s₁⟩ =
      some (runId, other) → (i, other.seq) ∈ numbers runId h₁ ∧
        h₁.shared.slot runId other.seq = none := by
    intro other hstore
    simp only [storing] at hstore
    split_ifs at hstore
    cases hstore
    exact ⟨hh.mem, hh.vacant⟩
  obtain ⟨hinv', hothers⟩ := log_up hinv hx hok ⟨hown, by rintro _ ⟨⟩⟩
  refine ⟨hinv', hothers, ?_⟩
  cases hfault : inp.fault with
  | some x =>
    have : r = .error x := by
      cases hx
      rw [hfault]
      rfl
    rw [this]
    rintro ⟨⟩
  | none =>
    have hlands : inp.lands = true := by simp [EventInput.lands, hfault]
    have hr : r = .ok () := by
      cases hx
      rw [hfault]
      rfl
    rw [hr] at hinv' hx ⊢
    have hstored : storing ⟨i, c, .putEvent runId event, inp, .ok (), h₁.shared, s₁⟩ =
        some (runId, event) := by simp [storing, hlands]
    have hlast : (⟨i, c, .putEvent runId event, inp, .ok (), h₁.shared, s₁⟩ : LogEntry) ∈
        (h₁.ran i c (.putEvent runId event) inp (.ok ()) s₁).entries := by
      rw [logEntries_ran]
      exact List.mem_append_right _ (List.mem_singleton_self _)
    exact fun _ => ⟨(numbers_grow logEntries_ran).subset hh.mem, hinv'.puts _ hlast event hstored,
      _, hlast, rfl, hstored⟩

theorem appendNow_safe {input : GoalEventInput} : LogSafe atomic maxRead runId i c
    (fun out h => ∀ event, out = .ok event → Stored runId i event h)
    (StoreGoalEventLog.appendNow atomic runId input) h := by
  refine nextSeq_safe.bind (fun seq h₁ hh => ?_) fun _ _ _ _ => nofun
  refine (timestampOr_safe (hh seq rfl)).bind (fun timestamp h₂ hh => ?_) fun _ _ _ _ => nofun
  refine (putEvent_safe hh).bind (fun _ h₃ hstored => ?_) fun _ _ _ _ => nofun
  rintro event ⟨⟩
  exact hstored rfl

theorem append_safe {input : GoalEventInput} (hrun : input.runId = some runId) :
    LogSafe atomic maxRead runId i c (fun out h => ∀ event, out = .ok event →
      Stored runId i event h) (StoreGoalEventLog.append atomic c.log input) h := by
  unfold StoreGoalEventLog.append
  simp only [hrun, Option.getD_some]
  split_ifs with hempty
  · exact fun _ => nofun
  · refine aside_safe rfl fun h₁ inp ticket s₁ _ _ _ => ?_
    refine Safe.settle (p := .call (.turn ticket) fun _ =>
      StoreGoalEventLog.appendNow atomic runId input)
      (aside_safe rfl fun h₂ _ _ s₂ _ _ _ => appendNow_safe) fun out h₃ hstored => ?_
    refine aside_safe rfl fun h₄ inp₄ r₄ s₄ hkept _ hx => ?_
    simp only [Prog.bind_ret]
    cases out with
    | error x => exact fun _ => nofun
    | ok event =>
      rintro _ ⟨⟩
      exact ((hstored event rfl).rely hkept).ran hx rfl

section Others

variable {other : GoalRunId} {log : ℕ} {input : GoalEventInput}

theorem timestampOr_only {P : LogOp → Prop} {timestamp : Option String} (hP : P .clock) :
    (StoreGoalEventLog.timestampOr timestamp).Only P := by
  cases timestamp with
  | some t => trivial
  | none => exact ⟨hP, fun now => Prog.only_resume.bind fun _ => trivial⟩

/-- An append writes for its own run only. -/
theorem append_only (hne : input.runId ≠ some runId) :
    (StoreGoalEventLog.append atomic log input).Only fun op => op.writesFor ≠ some runId := by
  unfold StoreGoalEventLog.append
  dsimp only
  split_ifs with hempty
  · exact Prog.only_resume
  have hother : input.runId.getD "" ≠ runId := by
    intro heq
    cases hrun : input.runId with
    | none =>
      rw [hrun] at hempty
      exact hempty rfl
    | some other =>
      rw [hrun, Option.getD_some] at heq
      exact hne (by rw [hrun, heq])
  generalize input.runId.getD "" = other at hother
  have hwrites : some other ≠ some runId := fun heq => hother (Option.some.inj heq)
  have allocate : ∀ (existing : Option ℕ) (floor : ℕ),
      (if atomic then .call (.updateHead other floor) .resume
      else (.call (.putHead other (nextHead existing floor)) .resume : LogProg Unit).bind
        fun _ => .ret (nextHead existing floor) : LogProg ℕ).Only
          fun op => op.writesFor ≠ some runId := by
    intro existing floor
    split_ifs
    · exact ⟨hwrites, fun _ => Prog.only_resume⟩
    · exact Prog.Only.bind ⟨hwrites, fun _ => Prog.only_resume⟩ fun _ => trivial
  have next : (StoreGoalEventLog.nextSeq atomic other).Only fun op => op.writesFor ≠ some runId := by
    refine Prog.Only.bind ⟨nofun, fun _ => Prog.only_resume⟩ fun existing => ?_
    refine Prog.Only.bind ?_ fun floor => allocate existing floor
    split_ifs
    · trivial
    · exact Prog.Only.bind ⟨nofun, fun _ => Prog.only_resume⟩ fun _ => trivial
  refine ⟨nofun, fun ticket => Prog.Only.settle ⟨nofun, fun _ => ?_⟩ fun out =>
    Prog.Only.bind ⟨nofun, fun _ => trivial⟩ fun _ => Prog.only_resume⟩
  refine next.bind fun seq => (timestampOr_only nofun).bind fun timestamp => ?_
  exact Prog.Only.bind ⟨hwrites, fun _ => Prog.only_resume⟩ fun _ => trivial

end Others

end Walk

end Wazir.Api
