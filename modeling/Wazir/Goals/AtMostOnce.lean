import Wazir.Goals.Effects

/-! Effects at most once. A key's record is in flight from the claim of a run to the run's own
record, and only a reconciliation can close it in the run's place. As long as a
reconciliation never lands on the claim of a process that is alive, no two bodies of one
key run at once, none starts again without cause, and a run records only its own result.
The in-process map does not ensure that proviso. -/

namespace Wazir.Goals

open Wazir.Async

/-! What a command in the history stands for. -/

def startsBody (key : IdempotencyKey) (e : EffectEntry) : Bool :=
  match e.op with
  | .effectStart k => k = key
  | _ => false

/-- The outcome with which the body of `key` ended. -/
def bodyOutcome (key : IdempotencyKey) (e : EffectEntry) : Option (Except Thrown (Option Json)) :=
  match e.op, e.res with
  | .effectEnd k, out => if k = key then some out else none
  | _, _ => none

def claims (key : IdempotencyKey) (e : EffectEntry) : Bool :=
  match e.op, e.res with
  | .updateRecord k (.claim _), .ok (_, true) => k = key
  | _, _ => false

/-- The result a run recorded as done. -/
def recordsDone (key : IdempotencyKey) (e : EffectEntry) : Option (Option Json) :=
  match e.op, e.res with
  | .updateRecord k (.record _ value), .ok _ => if k = key then some value else none
  | _, _ => none

/-- The resolution a reconciliation recorded. -/
def reconciles (key : IdempotencyKey) (e : EffectEntry) : Option EffectResolution :=
  match e.op, e.res with
  | .updateRecord k (.reconcile resolution _), .ok _ => if k = key then some resolution else none
  | _, _ => none

/-- The latest claim of `key`. -/
def lastClaim (key : IdempotencyKey) (h : EffectHist) : Option EffectEntry :=
  (h.entries.filter (claims key)).getLast?

theorem lastClaim_ran (key : IdempotencyKey) (h : EffectHist) (e : EffectEntry) (s : EffectShared) :
    lastClaim key (h.push (.ran e) s) = if claims key e then some e else lastClaim key h := by
  simp only [lastClaim, Hist.entries_push_ran, List.filter_append, List.filter_cons, List.filter_nil]
  split_ifs <;> simp

/-! When a run owns its key, and when a body is running. -/

def InFlight (key : IdempotencyKey) (s : EffectShared) : Prop :=
  ∃ r, s.records.lookup key = some r ∧ r.state = .inFlight

def Final (key : IdempotencyKey) (s : EffectShared) : Prop :=
  ∃ r, s.records.lookup key = some r ∧ (r.state = .done ∨ r.state = .failed)

/-- The claim of thread `i` is the latest one and still open. -/
def HoldsKey (key : IdempotencyKey) (i : ℕ) (c : EffectRequest) (h : EffectHist) : Prop :=
  (∃ e, lastClaim key h = some e ∧ e.thread = i ∧ e.call = c) ∧ InFlight key h.shared

variable {h : EffectHist} {c d : EffectRequest}

theorem HoldsKey.unique {key : IdempotencyKey} {i j : ℕ} (hi : HoldsKey key i c h)
    (hj : HoldsKey key j d h) : i = j ∧ c = d := by
  obtain ⟨⟨e, he, rfl, rfl⟩, -⟩ := hi
  obtain ⟨⟨e', he', rfl, rfl⟩, -⟩ := hj
  cases he.symm.trans he'
  exact ⟨rfl, rfl⟩

variable {s : EffectShared}

theorem Final.not_inFlight {key : IdempotencyKey} (h : Final key s) :
    ¬ InFlight key s := by
  rintro ⟨r, hr, hs⟩
  obtain ⟨r', hr', hs'⟩ := h
  cases hr.symm.trans hr'
  simp [hs] at hs'

/-- The body that `e` started has not ended, and its process is alive. -/
def Running (key : IdempotencyKey) (e : EffectEntry) (h : EffectHist) : Prop :=
  e ∈ h.entries ∧ startsBody key e = true ∧ (∀ e' ∈ h.entriesOf e.thread, bodyOutcome key e' = none) ∧
    e.call.inst.process ∉ h.dead

/-- What allows a body to start again after `e` started it: it ended with a retryable
failure, or its process died and `not_applied` was recorded. -/
def Excused (key : IdempotencyKey) (e : EffectEntry) (h : EffectHist) : Prop :=
  (∃ e' ∈ h.entriesOf e.thread, ∃ f, bodyOutcome key e' = some (.error (.failure f)) ∧
    f.retryable = true) ∨
  ∃ pre e' post, h.events = pre ++ .ran e' :: post ∧ .ran e ∈ pre ∧
    reconciles key e' = some .notApplied ∧
    e.call.inst.process ∈ Hist.dead (⟨pre, h.shared⟩ : EffectHist)

/-- The property. -/
structure AtMostOnce (h : EffectHist) : Prop where
  /-- No two bodies of one key run at once. -/
  apart : ∀ key e e', Running key e h → Running key e' h → e.thread = e'.thread
  /-- A body starts again only with an excuse for every earlier start. -/
  restart : ∀ pre e post, h.events = pre ++ .ran e :: post → ∀ key, startsBody key e = true →
    ∀ e', .ran e' ∈ pre → startsBody key e' = true →
      e'.thread ≠ e.thread ∧ Excused key e' ⟨pre, e.before⟩
  /-- A result is recorded as done only by the run whose body returned it and whose claim is
  the latest. -/
  recorded : ∀ pre e post, h.events = pre ++ .ran e :: post → ∀ key value,
    recordsDone key e = some value →
      (∃ c, lastClaim key ⟨pre, e.before⟩ = some c ∧ c.thread = e.thread) ∧
      ∃ e', .ran e' ∈ pre ∧ e'.thread = e.thread ∧ bodyOutcome key e' = some (.ok value)

/-- The proviso: a reconciliation that goes through lands on the claim of a dead process. -/
def LandsOnDead (h : EffectHist) (e : EffectEntry) : Prop :=
  ∀ key, (reconciles key e).isSome → ∀ c, lastClaim key h = some c → c.call.inst.process ∈ h.dead

def ReconcilesDead (h : EffectHist) : Prop := h.Always LandsOnDead

/-! The invariant. -/

structure EffectInv (h : EffectHist) : Prop where
  running : ∀ key e, Running key e h → HoldsKey key e.thread e.call h
  started : ∀ key e, e ∈ h.entries → startsBody key e = true →
    HoldsKey key e.thread e.call h ∨ Final key h.shared ∨ Excused key e h
  once : AtMostOnce h

variable {h h' : EffectHist}

theorem Excused.mono {key : IdempotencyKey} {e : EffectEntry} (hx : Excused key e h)
    (hown : ∀ e' ∈ h.entriesOf e.thread, e' ∈ h'.entriesOf e.thread)
    (hev : ∃ post, h'.events = h.events ++ post) : Excused key e h' := by
  rcases hx with ⟨e', he', hf⟩ | ⟨pre, e', post, hsplit, hmem, hrec, hdead⟩
  · exact .inl ⟨e', hown e' he', hf⟩
  · obtain ⟨rest, hrest⟩ := hev
    exact .inr ⟨pre, e', post ++ rest, by rw [hrest, hsplit]; simp, hmem, hrec, hdead⟩

theorem apart_of_running (hr : ∀ key e, Running key e h → HoldsKey key e.thread e.call h)
    (key : IdempotencyKey) (e e' : EffectEntry) (he : Running key e h) (he' : Running key e' h) :
    e.thread = e'.thread :=
  ((hr key e he).unique (hr key e' he')).1

/-- A body that runs after an event ran before it, unless the event started it. -/
theorem Running.before {key : IdempotencyKey} {e x : EffectEntry}
    (hr : Running key e (h.push (.ran x) s)) (hx : startsBody key x = false) : Running key e h := by
  obtain ⟨hmem, hs, hown, hdead⟩ := hr
  refine ⟨?_, hs, fun e' he' => hown e' ?_, by simpa using hdead⟩
  · rw [Hist.entries_push_ran, List.mem_append, List.mem_singleton] at hmem
    rcases hmem with hmem | rfl
    · exact hmem
    · rw [hs] at hx
      cases hx
  · rw [Hist.entriesOf_push_ran]
    exact List.mem_append_left _ he'

theorem Excused.ran {key : IdempotencyKey} {e x : EffectEntry} (hx : Excused key e h) :
    Excused key e (h.push (.ran x) s) :=
  hx.mono (fun e' he' => by rw [Hist.entriesOf_push_ran]; exact List.mem_append_left _ he')
    ⟨[.ran x], rfl⟩

/-- What a command needs to keep the invariant. -/
def EffectPrepared (h : EffectHist) (i : ℕ) (c : EffectRequest) : EffectOp → Prop
  | .effectStart key => HoldsKey key i c h ∧
      ∀ e ∈ h.entriesOf i, ∀ k, startsBody k e = false
  | .updateRecord key (.record _ value) => HoldsKey key i c h ∧
      ∃ e ∈ h.entriesOf i, bodyOutcome key e = some (.ok value)
  | .updateRecord key (.recordFailure _ error) => HoldsKey key i c h ∧
      ∃ e ∈ h.entriesOf i, bodyOutcome key e = some (.error error)
  | _ => True

variable {x : EffectEntry}

/-- The commands that change no record. -/
theorem effectInv_same (inv : EffectInv h)
    (hrecords : ∀ k, s.records.lookup k = h.shared.records.lookup k)
    (hclaim : ∀ key, claims key x = false) (hrec : ∀ key, recordsDone key x = none)
    (hstart : ∀ key, startsBody key x = true → HoldsKey key x.thread x.call h ∧
      ∀ e ∈ h.entriesOf x.thread, startsBody key e = false) : EffectInv (h.push (.ran x) s) := by
  have hholds : ∀ key i c, HoldsKey key i c h → HoldsKey key i c (h.push (.ran x) s) := by
    rintro key i c ⟨hlast, hin⟩
    refine ⟨?_, ?_⟩
    · simpa [lastClaim_ran, hclaim key] using hlast
    · simpa [InFlight, hrecords] using hin
  have hrunning : ∀ key e, Running key e (h.push (.ran x) s) →
      HoldsKey key e.thread e.call (h.push (.ran x) s) := by
    intro key e hr
    cases hs : startsBody key x with
    | false => exact hholds _ _ _ (inv.running key e (hr.before hs))
    | true =>
      have hmem := hr.1
      rw [Hist.entries_push_ran, List.mem_append, List.mem_singleton] at hmem
      rcases hmem with hmem | rfl
      · refine hholds _ _ _ (inv.running key e ⟨hmem, hr.2.1, fun e' he' => hr.2.2.1 e' ?_, ?_⟩)
        · rw [Hist.entriesOf_push_ran]
          exact List.mem_append_left _ he'
        · simpa using hr.2.2.2
      · exact hholds _ _ _ (hstart key hs).1
  refine ⟨hrunning, ?_, ⟨apart_of_running hrunning, ?_, ?_⟩⟩
  · intro key e hmem hs
    rw [Hist.entries_push_ran, List.mem_append, List.mem_singleton] at hmem
    rcases hmem with hmem | rfl
    · rcases inv.started key e hmem hs with hh | hf | hx
      · exact .inl (hholds _ _ _ hh)
      · exact .inr (.inl (by simpa [Final, hrecords] using hf))
      · exact .inr (.inr hx.ran)
    · exact .inl (hholds _ _ _ (hstart key hs).1)
  · intro pre e post he key hs e' hmem' hs'
    rcases Hist.split_push he with ⟨post', hold⟩ | ⟨hev, rfl⟩
    · exact inv.once.restart pre e post' hold key hs e' hmem' hs'
    cases hev
    obtain ⟨hhold, hfresh⟩ := hstart key hs
    have hent : e' ∈ h.entries := List.mem_filterMap.mpr ⟨_, hmem', rfl⟩
    have hne : e'.thread ≠ x.thread := fun heq => by
      have := hfresh e' (List.mem_filter.mpr ⟨hent, by simpa using heq⟩)
      rw [hs'] at this
      cases this
    refine ⟨hne, ?_⟩
    rcases inv.started key e' hent hs' with hh | hf | hx
    · exact absurd (hh.unique hhold).1 hne
    · exact absurd hhold.2 hf.not_inFlight
    · exact hx.mono (fun _ he => he) ⟨[], by simp⟩
  · intro pre e post he key value hv
    rcases Hist.split_push he with ⟨post', hold⟩ | ⟨hev, -⟩
    · exact inv.once.recorded pre e post' hold key value hv
    · cases hev
      rw [hrec key] at hv
      cases hv

/-- A claim goes through only when no run owns the key. -/
theorem effectInv_claim {key : IdempotencyKey} (inv : EffectInv h)
    (hother : ∀ k, k ≠ key → s.records.lookup k = h.shared.records.lookup k)
    (hfree : ¬ InFlight key h.shared) (hnotFinal : ¬ Final key h.shared)
    (hclaim : ∀ k, claims k x = true → k = key) (hstart : ∀ k, startsBody k x = false)
    (hrec : ∀ k, recordsDone k x = none) : EffectInv (h.push (.ran x) s) := by
  have hholds : ∀ k i c, k ≠ key → HoldsKey k i c h → HoldsKey k i c (h.push (.ran x) s) := by
    rintro k i c hk ⟨hlast, hin⟩
    have hno : claims k x = false := by
      cases hc : claims k x
      · rfl
      · exact absurd (hclaim k hc) hk
    refine ⟨?_, ?_⟩
    · simpa [lastClaim_ran, hno] using hlast
    · simpa [InFlight, hother k hk] using hin
  have hkey : ∀ k i c, HoldsKey k i c h → k ≠ key := by
    rintro k i c hh rfl
    exact hfree hh.2
  have hrunning : ∀ k e, Running k e (h.push (.ran x) s) →
      HoldsKey k e.thread e.call (h.push (.ran x) s) := by
    intro k e hr
    have hh := inv.running k e (hr.before (hstart k))
    exact hholds _ _ _ (hkey _ _ _ hh) hh
  refine ⟨hrunning, ?_, ⟨apart_of_running hrunning, ?_, ?_⟩⟩
  · intro k e hmem hs
    rw [Hist.entries_push_ran, List.mem_append, List.mem_singleton] at hmem
    rcases hmem with hmem | rfl
    · rcases inv.started k e hmem hs with hh | hf | hx
      · exact .inl (hholds _ _ _ (hkey _ _ _ hh) hh)
      · have hk : k ≠ key := by
          rintro rfl
          exact hnotFinal hf
        exact .inr (.inl (by simpa [Final, hother k hk] using hf))
      · exact .inr (.inr hx.ran)
    · rw [hstart k] at hs
      cases hs
  · intro pre e post he k hs
    rcases Hist.split_push he with ⟨post', hold⟩ | ⟨hev, -⟩
    · exact inv.once.restart pre e post' hold k hs
    · cases hev
      rw [hstart k] at hs
      cases hs
  · intro pre e post he k value hv
    rcases Hist.split_push he with ⟨post', hold⟩ | ⟨hev, -⟩
    · exact inv.once.recorded pre e post' hold k value hv
    · cases hev
      rw [hrec k] at hv
      cases hv

/-- Closing a claim whose body is not running any more, for good or with an excuse. -/
theorem effectInv_close {key : IdempotencyKey} (inv : EffectInv h)
    (hother : ∀ k, k ≠ key → s.records.lookup k = h.shared.records.lookup k)
    (hopen : InFlight key h.shared) (hclaim : ∀ k, claims k x = false)
    (hstart : ∀ k, startsBody k x = false)
    (hown : ∀ e ∈ h.entries, startsBody key e = true → HoldsKey key e.thread e.call h →
      ¬ Running key e h ∧ (Final key s ∨ Excused key e (h.push (.ran x) s)))
    (hrec : ∀ k value, recordsDone k x = some value →
      (∃ c, lastClaim k h = some c ∧ c.thread = x.thread) ∧
      ∃ e', .ran e' ∈ h.events ∧ e'.thread = x.thread ∧ bodyOutcome k e' = some (.ok value)) :
    EffectInv (h.push (.ran x) s) := by
  have hholds : ∀ k i c, k ≠ key → HoldsKey k i c h → HoldsKey k i c (h.push (.ran x) s) := by
    rintro k i c hk ⟨hlast, hin⟩
    refine ⟨?_, ?_⟩
    · simpa [lastClaim_ran, hclaim k] using hlast
    · simpa [InFlight, hother k hk] using hin
  have hrunning : ∀ k e, Running k e (h.push (.ran x) s) →
      HoldsKey k e.thread e.call (h.push (.ran x) s) := by
    intro k e hr
    have hr' := hr.before (hstart k)
    have hh := inv.running k e hr'
    refine hholds _ _ _ ?_ hh
    rintro rfl
    exact (hown e hr'.1 hr'.2.1 hh).1 hr'
  refine ⟨hrunning, ?_, ⟨apart_of_running hrunning, ?_, ?_⟩⟩
  · intro k e hmem hs
    rw [Hist.entries_push_ran, List.mem_append, List.mem_singleton] at hmem
    rcases hmem with hmem | rfl
    · by_cases hk : k = key
      · subst hk
        rcases inv.started k e hmem hs with hh | hf | hx
        · exact .inr (hown e hmem hs hh).2
        · exact absurd hopen hf.not_inFlight
        · exact .inr (.inr hx.ran)
      · rcases inv.started k e hmem hs with hh | hf | hx
        · exact .inl (hholds _ _ _ hk hh)
        · exact .inr (.inl (by simpa [Final, hother k hk] using hf))
        · exact .inr (.inr hx.ran)
    · rw [hstart k] at hs
      cases hs
  · intro pre e post he k hs
    rcases Hist.split_push he with ⟨post', hold⟩ | ⟨hev, -⟩
    · exact inv.once.restart pre e post' hold k hs
    · cases hev
      rw [hstart k] at hs
      cases hs
  · intro pre e post he k value hv
    rcases Hist.split_push he with ⟨post', hold⟩ | ⟨hev, rfl⟩
    · exact inv.once.recorded pre e post' hold k value hv
    · cases hev
      exact hrec k value hv

theorem not_running_of_ended {key : IdempotencyKey} {e e' : EffectEntry}
    {out : Except Thrown (Option Json)} (he' : e' ∈ h.entriesOf e.thread)
    (hout : bodyOutcome key e' = some out) : ¬ Running key e h := fun hr => by
  have := hr.2.2.1 e' he'
  rw [hout] at this
  cases this

variable {inp : EffectInput} {op : EffectOp} {c : EffectRequest}

theorem effectInv_ran {i : ℕ} {r : EffectRes op} (inv : EffectInv h)
    (hx : effectExec op inp h.shared = some (r, s)) (hp : EffectPrepared h i c op)
    (hok : ReconcilesDead (h.ran i c op inp r s)) : EffectInv (h.ran i c op inp r s) := by
  unfold Hist.ran
  cases op with
  | effectStart key =>
    cases hx
    refine effectInv_same inv (fun _ => rfl) (fun _ => rfl) (fun _ => rfl) fun k hk => ?_
    obtain rfl : key = k := by simpa [startsBody] using hk
    exact ⟨hp.1, fun e he => hp.2 e he key⟩
  | updateRecord key u =>
    rcases effectExec_update hx with ⟨x, rfl, rfl⟩ | ⟨out, hu, rfl, hlook, hother⟩
    · refine effectInv_same inv (fun _ => rfl) (fun k => ?_) (fun k => ?_) (fun k hk => by cases hk)
      · cases u <;> rfl
      · cases u <;> rfl
    have hsame : out.1 = h.shared.records.lookup key →
        ∀ k, s.records.lookup k = h.shared.records.lookup k := fun hcur k => by
      by_cases hk : k = key
      · subst hk
        rw [hlook, hcur]
      · exact hother k hk
    cases u with
    | claim owner =>
      rcases claimUpdate_ok hu with rfl | ⟨hreleased, rec, hrec, rfl⟩
      · exact effectInv_same inv (hsame rfl) (fun _ => rfl) (fun _ => rfl) (fun k hk => by cases hk)
      · refine effectInv_claim inv hother ?_ ?_ (fun k hk => ?_) (fun _ => rfl)
          (fun _ => rfl)
        · rintro ⟨seen, hseen, hs⟩
          rw [hreleased seen hseen] at hs
          cases hs
        · rintro ⟨seen, hseen, hs⟩
          rw [hreleased seen hseen] at hs
          simp at hs
        · simpa [claims, eq_comm] using hk
    | record owner value =>
      simp only [EffectUpdate.apply, except_map_eq_ok] at hu
      obtain ⟨rec, hrec, rfl⟩ := hu
      obtain ⟨hhold, e', he', hout⟩ := hp
      refine effectInv_close inv hother hhold.2 (fun _ => rfl) (fun _ => rfl)
        (fun e _ _ hh => ?_) fun k v hv => ?_
      · obtain ⟨hi, -⟩ := hh.unique hhold
        exact ⟨not_running_of_ended (hi ▸ he') hout,
          .inl ⟨rec, hlook, .inl (recordUpdate_ok hrec)⟩⟩
      · simp only [recordsDone] at hv
        split_ifs at hv with hk
        cases hv
        subst hk
        obtain ⟨⟨cl, hcl, hth, -⟩, -⟩ := hhold
        refine ⟨⟨cl, hcl, hth⟩, e', ?_, by simpa using (List.mem_filter.mp he').2, hout⟩
        obtain ⟨pre, post, hsplit⟩ := Hist.mem_entries (List.mem_of_mem_filter he')
        simp [hsplit]
    | recordFailure owner error =>
      simp only [EffectUpdate.apply, except_map_eq_ok] at hu
      obtain ⟨rec, hrec, rfl⟩ := hu
      rcases recordFailureUpdate_ok hrec with rfl | ⟨rec', rfl, hstate⟩
      · exact effectInv_same inv (hsame rfl) (fun _ => rfl) (fun _ => rfl) (fun k hk => by cases hk)
      obtain ⟨hhold, e', he', hout⟩ := hp
      refine effectInv_close inv hother hhold.2 (fun _ => rfl) (fun _ => rfl)
        (fun e _ _ hh => ?_) fun k v hv => by cases hv
      obtain ⟨hi, -⟩ := hh.unique hhold
      refine ⟨not_running_of_ended (hi ▸ he') hout, ?_⟩
      cases hret : (recordedError error).retryable with
      | false => exact .inl ⟨rec', hlook, .inr (by simpa [hret] using hstate)⟩
      | true =>
        refine .inr (Excused.ran (.inl ⟨e', hi ▸ he', ?_⟩))
        cases error with
        | failure f => exact ⟨f, hout, hret⟩
        | error m => cases hret
    | reconcile resolution actor =>
      simp only [EffectUpdate.apply, except_map_eq_ok] at hu
      obtain ⟨rec, hrec, rfl⟩ := hu
      obtain ⟨hopen, hstate⟩ := reconcileUpdate_ok hrec
      refine effectInv_close inv hother hopen (fun _ => rfl) (fun _ => rfl)
        (fun e hmem _ hh => ?_) fun k v hv => by cases hv
      obtain ⟨⟨cl, hcl, -, hcall⟩, -⟩ := hh
      have hdead := hok.last rfl key (by simp [reconciles]) cl hcl
      rw [hcall] at hdead
      refine ⟨fun hr => hr.2.2.2 hdead, ?_⟩
      cases resolution with
      | applied result => exact .inl ⟨rec, hlook, .inl hstate⟩
      | notApplied =>
        obtain ⟨pre, post, hsplit⟩ := Hist.mem_entries hmem
        exact .inr (.inr ⟨h.events, _, [], rfl, by simp [hsplit], by simp [reconciles], hdead⟩)
  | _ =>
    exact effectInv_same inv (fun k => by rw [effectExec_records hx (by simp)]) (fun _ => rfl)
      (fun _ => rfl) (fun k hk => by cases hk)

/-! The contract of the procedures. -/

def effectContract : Contract EffectOp EffectRes EffectRequest ℕ EffectInput EffectShared where
  Ok := ReconcilesDead
  Inv := EffectInv
  Rely i c h h' := h'.entriesOf i = h.entriesOf i ∧ (c.inst.process ∉ h.dead →
    c.inst.process ∉ h'.dead ∧ ∀ key, HoldsKey key i c h → HoldsKey key i c h')

theorem HoldsKey.push {key : IdempotencyKey} {i : ℕ} (hh : HoldsKey key i c h)
    (hclaim : claims key x = false) (hs : s.records.lookup key = h.shared.records.lookup key) :
    HoldsKey key i c (h.push (.ran x) s) := by
  obtain ⟨hlast, hin⟩ := hh
  refine ⟨?_, ?_⟩
  · simpa [lastClaim_ran, hclaim] using hlast
  · simpa [InFlight, hs] using hin

theorem claims_other {key k : IdempotencyKey} {i : ℕ} {u : EffectUpdate}
    {r : Except Thrown (Option IdempotencyRecord × Bool)} {before after : EffectShared}
    (hk : key ≠ k) :
    claims key ⟨i, c, .updateRecord k u, inp, r, before, after⟩ = false := by
  simp only [claims]
  split
  · simp_all [eq_comm]
  · rfl

/-- No command of another thread takes a claim from a live one. -/
theorem HoldsKey.others {key : IdempotencyKey} {i j : ℕ} {r : EffectRes op}
    (hh : HoldsKey key j d h) (hx : effectExec op inp h.shared = some (r, s))
    (hp : EffectPrepared h i c op) (hok : ReconcilesDead (h.ran i c op inp r s)) (hij : j ≠ i)
    (alive : d.inst.process ∉ h.dead) : HoldsKey key j d (h.ran i c op inp r s) := by
  unfold Hist.ran
  cases op with
  | updateRecord k u =>
    rcases effectExec_update hx with ⟨x, rfl, rfl⟩ | ⟨out, hu, rfl, hlook, hother⟩
    · exact hh.push (by cases u <;> rfl) rfl
    by_cases hk : key = k
    swap
    · exact hh.push (claims_other hk) (hother key hk)
    subst hk
    cases u with
    | claim owner =>
      rcases claimUpdate_ok hu with rfl | ⟨hreleased, rec, hrec, rfl⟩
      · exact hh.push rfl hlook
      · obtain ⟨seen, hseen, hs⟩ := hh.2
        rw [hreleased seen hseen] at hs
        cases hs
    | record owner value => exact absurd (hh.unique hp.1).1 hij
    | recordFailure owner error => exact absurd (hh.unique hp.1).1 hij
    | reconcile resolution actor =>
      obtain ⟨⟨cl, hcl, -, rfl⟩, -⟩ := hh
      exact absurd (hok.last rfl key (by simp [reconciles]) cl hcl) alive
  | _ => exact hh.push rfl (by rw [effectExec_records hx (by simp)])

/-- Commands that need no preparation. -/
def EffectOp.free : EffectOp → Prop
  | .effectStart _ => False
  | .updateRecord _ (.record _ _) => False
  | .updateRecord _ (.recordFailure _ _) => False
  | _ => True

theorem effectPrepared_of_free {i : ℕ} (hop : op.free) : EffectPrepared h i c op := by
  cases op with
  | effectStart key => exact hop.elim
  | updateRecord key u =>
    cases u with
    | record owner value => exact hop.elim
    | recordFailure owner error => exact hop.elim
    | _ => trivial
  | _ => trivial

theorem effectRely_ran {i j : ℕ} {r : EffectRes op} (hx : effectExec op inp h.shared = some (r, s))
    (hp : EffectPrepared h i c op) (hok : ReconcilesDead (h.ran i c op inp r s)) (hij : j ≠ i) :
    effectContract.Rely j d h (h.ran i c op inp r s) := by
  refine ⟨?_, fun alive => ⟨?_, fun key hh => hh.others hx hp hok hij alive⟩⟩
  · rw [Hist.ran, Hist.entriesOf_push_ran, if_neg (Ne.symm hij), List.append_nil]
  · rwa [Hist.ran, Hist.dead_push_ran]

section Safety

variable {α : Type} {i : ℕ} {c : EffectRequest} {Q : Except Thrown α → EffectHist → Prop}

theorem effect_call {next : EffectRes op → EffectProg α} (alive : c.inst.process ∉ h.dead)
    (prepared : ∀ h', effectContract.Rely i c h h' → EffectPrepared h' i c op)
    (rest : ∀ h' inp r s, effectContract.Rely i c h h' → c.inst.process ∉ h'.dead →
      effectExec op inp h'.shared = some (r, s) →
      Safe effectSystem effectContract i c Q (next r) (h'.ran i c op inp r s)) :
    Safe effectSystem effectContract i c Q (.call op next) h := by
  intro h' inp r s hrely hinv hx hok
  exact ⟨effectInv_ran hinv hx (prepared h' hrely) hok,
    fun j d hij => effectRely_ran hx (prepared h' hrely) hok hij,
    rest h' inp r s hrely (hrely.2 alive).1 hx⟩

theorem effect_of_free {p : EffectProg α} (hp : p.Only EffectOp.free) (h : EffectHist) :
    Safe effectSystem effectContract i c (fun _ _ => True) p h :=
  Safe.of_only (fun _ _ _ _ _ hop hinv hx hok =>
    ⟨effectInv_ran hinv hx (effectPrepared_of_free hop) hok,
      fun _ _ hij => effectRely_ran hx (effectPrepared_of_free hop) hok hij⟩) hp h

/-- The thread has started no body. -/
def Fresh (i : ℕ) (h : EffectHist) : Prop := ∀ e ∈ h.entriesOf i, ∀ key, startsBody key e = false

theorem Fresh.ran {r : EffectRes op} (hf : Fresh i h) (hrely : effectContract.Rely i c h h')
    (hop : ∀ key, op ≠ .effectStart key) : Fresh i (h'.ran i c op inp r s) := by
  intro e he key
  rw [Hist.ran, Hist.entriesOf_push_ran, if_pos rfl, hrely.1, List.mem_append,
    List.mem_singleton] at he
  rcases he with he | rfl
  · exact hf e he key
  · cases op with
    | effectStart k => exact absurd rfl (hop k)
    | _ => rfl

namespace GoalLedgerStore

theorem ownerAlive_free (inst : LedgerInstance) (owner : EffectOwner) :
    (ownerAlive inst owner).Only EffectOp.free := by
  unfold ownerAlive
  split_ifs <;> simp [EffectOp.free]

theorem replay_free (inst : LedgerInstance) (record : IdempotencyRecord) :
    (replay inst record).Only EffectOp.free := by
  unfold replay
  split_ifs
  · simp
  · simp
  · exact (ownerAlive_free inst record.owner).bind fun _ => trivial

theorem reconcileEffect_free (inst : LedgerInstance) (key : IdempotencyKey)
    (resolution : EffectResolution) (actor : String) :
    (reconcileEffect inst key resolution actor).Only EffectOp.free := by
  have hrec : (Prog.bind (updateEffect key (.reconcile resolution actor)) fun r =>
      (.ret r.1 : EffectProg (Option IdempotencyRecord))).Only EffectOp.free :=
    .bind ⟨trivial, by simp⟩ fun _ => trivial
  unfold reconcileEffect
  split_ifs
  · simp
  refine ⟨trivial, fun local? => ?_⟩
  cases local? with
  | some promise => simp
  | none =>
    refine .bind ⟨trivial, by simp⟩ fun status => ?_
    cases status with
    | none => exact hrec
    | some status =>
      dsimp only
      split_ifs
      · refine (ownerAlive_free inst status.owner).bind fun alive => ?_
        split_ifs
        · simp
        · exact hrec
      · exact hrec

/-- The body runs and is recorded under its own claim. -/
theorem runBody_safe {key : IdempotencyKey} (alive : c.inst.process ∉ h.dead)
    (hh : HoldsKey key i c h) (hf : Fresh i h) :
    Safe effectSystem effectContract i c (fun _ _ => True) (runBody c.inst key) h := by
  refine effect_call alive (fun h' hrely => ⟨(hrely.2 alive).2 key hh, ?_⟩)
    fun h' inp _ s hrely alive' hx => ?_
  · rw [hrely.1]
    exact hf
  have hh' : HoldsKey key i c (h'.ran i c (.effectStart key) inp () s) :=
    ((hrely.2 alive).2 key hh).push rfl (by rw [effectExec_records hx (by simp)])
  refine effect_call (by rwa [Hist.ran, Hist.dead_push_ran]) (fun _ _ => trivial)
    fun h₂ inp₂ out s₂ hrely₂ alive₂ hx₂ => ?_
  have alive₁ : c.inst.process ∉ (h'.ran i c (.effectStart key) inp () s).dead := by
    rwa [Hist.ran, Hist.dead_push_ran]
  have hh₂ : HoldsKey key i c (h₂.ran i c (.effectEnd key) inp₂ out s₂) :=
    ((hrely₂.2 alive₁).2 key hh').push rfl (by rw [effectExec_records hx₂ (by simp)])
  have hend : ∃ e ∈ (h₂.ran i c (.effectEnd key) inp₂ out s₂).entriesOf i,
      bodyOutcome key e = some out := by
    refine ⟨⟨i, c, .effectEnd key, inp₂, out, h₂.shared, s₂⟩, ?_, by simp [bodyOutcome]⟩
    rw [Hist.ran, Hist.entriesOf_push_ran, if_pos rfl]
    exact List.mem_append_right _ (List.mem_singleton.mpr rfl)
  have alive₃ : c.inst.process ∉ (h₂.ran i c (.effectEnd key) inp₂ out s₂).dead := by
    rwa [Hist.ran, Hist.dead_push_ran]
  cases out with
  | error error =>
    refine effect_call alive₃ (fun h₄ hrely₄ => ⟨(hrely₄.2 alive₃).2 key hh₂, by rwa [hrely₄.1]⟩)
      fun _ _ r _ _ _ _ => ?_
    cases r <;> trivial
  | ok value =>
    refine effect_call alive₃ (fun h₄ hrely₄ => ⟨(hrely₄.2 alive₃).2 key hh₂, by rwa [hrely₄.1]⟩)
      fun _ _ r _ _ _ _ => ?_
    cases r <;> trivial

theorem run_safe {key : IdempotencyKey} (alive : c.inst.process ∉ h.dead) (hf : Fresh i h) :
    Safe effectSystem effectContract i c (fun _ _ => True) (run c.inst key) h := by
  refine effect_call alive (fun _ _ => trivial) fun h' inp r s hrely alive' hx => ?_
  rcases effectExec_update hx with ⟨x, rfl, rfl⟩ | ⟨out, hu, rfl, hlook, -⟩
  · trivial
  simp only [Prog.resume_ok, Prog.bind_ret]
  rcases claimUpdate_ok hu with rfl | ⟨-, rec, hrec, rfl⟩
  · simp only [if_neg Bool.false_ne_true]
    cases h'.shared.records.lookup key with
    | none => trivial
    | some seen =>
      exact (effect_of_free (replay_free c.inst seen) _).bind (fun _ _ _ => trivial)
        fun _ _ _ => trivial
  · simp only [if_true]
    refine Safe.bind (runBody_safe ?_ ?_ (hf.ran hrely (by simp))) (fun _ _ _ => trivial)
      fun _ _ _ => trivial
    · rwa [Hist.ran, Hist.dead_push_ran]
    · refine ⟨⟨⟨i, c, .updateRecord key (.claim c.inst.owner), inp, .ok (some rec, true), h'.shared, s⟩,
        ?_, rfl, rfl⟩, rec, hlook, hrec⟩
      rw [Hist.ran, lastClaim_ran, if_pos (by simp [claims])]

theorem finish_free (inst : LedgerInstance) (key : IdempotencyKey) (promise : ℕ)
    (outcome : Except Thrown (Option Json × Bool)) :
    (Prog.call (.settleRun promise (outcome.map Prod.fst)) fun _ =>
      .call (.deleteInflight inst key) fun _ => .resume outcome :
      EffectProg (Option Json × Bool)).Only EffectOp.free :=
  ⟨trivial, fun _ => ⟨trivial, fun _ => by simp⟩⟩

theorem awaitRun_free (promise : ℕ) :
    (Prog.call (.awaitRun promise) fun outcome => (Prog.resume outcome).bind fun result =>
      .ret (result, true) : EffectProg (Option Json × Bool)).Only EffectOp.free :=
  ⟨trivial, fun outcome => by cases outcome <;> simp⟩

theorem once_safe {key : IdempotencyKey} (alive : c.inst.process ∉ h.dead) (hf : Fresh i h) :
    Safe effectSystem effectContract i c (fun _ _ => True) (once c.inst key) h := by
  have start : ∀ h, c.inst.process ∉ h.dead → Fresh i h →
      Safe effectSystem effectContract i c (fun _ _ => True) (startRun c.inst key) h := by
    intro h alive hf
    refine effect_call alive (fun _ _ => trivial) fun h' inp promise s hrely alive' _ => ?_
    refine Safe.settle (run_safe ?_ (hf.ran hrely (by simp))) fun outcome h'' _ => ?_
    · rwa [Hist.ran, Hist.dead_push_ran]
    · exact effect_of_free (finish_free ..) h''
  unfold once
  split_ifs
  · trivial
  refine effect_call alive (fun _ _ => trivial) fun h₁ inp₁ found s₁ hrely₁ alive₁ _ => ?_
  cases found with
  | some promise => exact effect_of_free (awaitRun_free promise) _
  | none =>
    have alive₂ : c.inst.process ∉ (h₁.ran i c (.getInflight c.inst key) inp₁ none s₁).dead := by
      rwa [Hist.ran, Hist.dead_push_ran]
    have hf₁ : Fresh i (h₁.ran i c (.getInflight c.inst key) inp₁ none s₁) :=
      hf.ran hrely₁ (by simp)
    refine effect_call alive₂ (fun _ _ => trivial) fun h₂ inp₂ r s₂ hrely₂ alive₃ _ => ?_
    have hf₂ : Fresh i (h₂.ran i c (.getRecord key) inp₂ r s₂) := hf₁.ran hrely₂ (by simp)
    have alive₄ : c.inst.process ∉ (h₂.ran i c (.getRecord key) inp₂ r s₂).dead := by
      rwa [Hist.ran, Hist.dead_push_ran]
    cases r with
    | error x => trivial
    | ok existing =>
      cases existing with
      | none => exact start _ alive₄ hf₂
      | some existing =>
        simp only [Prog.resume_ok, Prog.bind_ret, Prog.bind_def]
        split_ifs
        · exact (effect_of_free (replay_free c.inst existing) _).bind (fun _ _ _ => trivial)
            fun _ _ _ => trivial
        · exact start _ alive₄ hf₂

end GoalLedgerStore

theorem effectBody_safe (alive : c.inst.process ∉ h.dead) (hf : Fresh i h) :
    Safe effectSystem effectContract i c (fun _ _ => True) c.body h := by
  unfold EffectRequest.body
  cases c.call with
  | once key =>
    exact (GoalLedgerStore.once_safe alive hf).bind (fun _ _ _ => trivial) fun _ _ _ => trivial
  | reconcileEffect key resolution actor =>
    exact (effect_of_free (GoalLedgerStore.reconcileEffect_free ..) h).bind (fun _ _ _ => trivial)
      fun _ _ _ => trivial

end Safety

theorem effectInv_event (inv : EffectInv h) (hs : h'.shared = h.shared)
    (hentries : h'.entries = h.entries) (hdead : ∀ p ∈ h.dead, p ∈ h'.dead)
    (hev : ∃ ev, h'.events = h.events ++ [ev] ∧ ev.entry = none) : EffectInv h' := by
  obtain ⟨ev, hevents, hnone⟩ := hev
  have hown : ∀ i, h'.entriesOf i = h.entriesOf i := fun i => by simp only [Hist.entriesOf, hentries]
  have hholds : ∀ key i c, HoldsKey key i c h → HoldsKey key i c h' := by
    intro key i c hh
    simpa only [HoldsKey, lastClaim, hentries, hs] using hh
  have hrun : ∀ key e, Running key e h' → Running key e h := by
    rintro key e ⟨hmem, hst, hend, halive⟩
    exact ⟨hentries ▸ hmem, hst, hown e.thread ▸ hend, fun hd => halive (hdead _ hd)⟩
  have hrunning := fun key e hr => hholds _ _ _ (inv.running key e (hrun key e hr))
  have hold : ∀ pre e post, h'.events = pre ++ .ran e :: post →
      ∃ post', h.events = pre ++ .ran e :: post' := by
    intro pre e post he
    have he' : (h.push ev h.shared).events = pre ++ .ran e :: post := by
      rw [Hist.push_events, ← hevents, he]
    rcases Hist.split_push he' with hold | ⟨rfl, -⟩
    · exact hold
    · cases hnone
  refine ⟨hrunning, fun key e hmem hst => ?_, apart_of_running hrunning, ?_, ?_⟩
  · rcases inv.started key e (hentries ▸ hmem) hst with hh | hf | hx
    · exact .inl (hholds _ _ _ hh)
    · exact .inr (.inl (hs ▸ hf))
    · exact .inr (.inr (hx.mono (fun e' he' => hown e.thread ▸ he') ⟨[ev], hevents⟩))
  · intro pre e post he
    obtain ⟨post', he'⟩ := hold pre e post he
    exact inv.once.restart pre e post' he'
  · intro pre e post he
    obtain ⟨post', he'⟩ := hold pre e post he
    exact inv.once.recorded pre e post' he'

theorem effectContract_upheld : effectContract.Upheld effectSystem fun _ _ _ _ => True where
  okPrefix _ _ _ hok := Hist.Always.past hok
  refl _ _ _ := ⟨rfl, fun alive => ⟨alive, fun _ hh => hh⟩⟩
  trans _ _ _ _ _ a b := ⟨b.1.trans a.1, fun alive =>
    ⟨(b.2 (a.2 alive).1).1, fun key hh => (b.2 (a.2 alive).1).2 key ((a.2 alive).2 key hh)⟩⟩
  began := by
    rintro h i c s hinv hfresh alive ⟨⟩ -
    refine ⟨effectInv_event hinv rfl (by simp) (by simp) ⟨_, rfl, rfl⟩, fun j d _ => ?_,
      effectBody_safe (by rw [Hist.dead_push_began]; exact alive) ?_⟩
    · exact ⟨by simp, fun alive => ⟨by simpa using alive, fun key hh => by
        simpa [HoldsKey, lastClaim] using hh⟩⟩
    · intro e he
      rw [Hist.entriesOf_push_began, hfresh] at he
      cases he
  crashed := by
    intro h p hinv _
    refine ⟨effectInv_event hinv rfl (by simp) (by simp +contextual) ⟨_, rfl, rfl⟩, fun j d hd => ?_⟩
    refine ⟨by simp, fun alive => ⟨?_, fun key hh => by
      simpa [HoldsKey, lastClaim, effectSystem] using hh⟩⟩
    rw [Hist.dead_push_crashed, List.mem_append, List.mem_singleton]
    rintro (h | h)
    · exact alive h
    · exact hd h

/-- As long as every reconciliation that goes through lands on the claim of a dead process,
effects happen at most once. -/
theorem effects_atMostOnce {cfg : EffectConfig} (hr : Reach effectSystem noEffects cfg)
    (hok : ReconcilesDead cfg.hist) : AtMostOnce cfg.hist := by
  refine (effectContract_upheld.run ?_ hr hok).1.once
  have hnone : ∀ e : EffectEntry, e ∉ Hist.entries (⟨[], noEffects⟩ : EffectHist) := by
    simp [Hist.entries]
  refine ⟨fun key e he => absurd he.1 (hnone e), fun key e he => absurd he (hnone e),
    fun key e e' he => absurd he.1 (hnone e), ?_, ?_⟩
  · intro pre e post he
    simp at he
  · intro pre e post he
    simp at he

/-! Two runs of one key. In the first its process dies, the key is reconciled by another
process and the body runs again. In the second two calls of one instance pass the check of
the map together; the loser empties the map, and the running body loses its claim. -/

def keyReconciled (e : EffectEntry) : Option IdempotencyKey :=
  match e.op, e.res with
  | .updateRecord k (.reconcile _ _), .ok _ => some k
  | _, _ => none

def landsOnDead (h : EffectHist) (e : EffectEntry) : Bool :=
  match keyReconciled e with
  | some key => (lastClaim key h).all fun c => c.call.inst.process ∈ h.dead
  | none => true

theorem landsOnDead_sound (h : EffectHist) (e : EffectEntry) (hd : landsOnDead h e = true) :
    LandsOnDead h e := by
  intro key hr c hc
  obtain ⟨i, call, op, inp, r, before, after⟩ := e
  cases op with
  | updateRecord k u =>
    cases u with
    | reconcile resolution actor =>
      cases r with
      | error x => cases hr
      | ok out =>
        simp only [reconciles, Option.isSome_ite] at hr
        subst hr
        simpa [landsOnDead, keyReconciled, hc] using hd
    | _ => cases hr
  | _ => cases hr

/-- Instance `n`, alone in process `n`. -/
def inst (n : ℕ) (id : String) : LedgerInstance := ⟨n, ⟨id, n, "host"⟩, false⟩

def callOnce (n : ℕ) (id : String) : Action EffectRequest ℕ EffectInput :=
  .begin ⟨inst n id, .once "k"⟩

def callReconcile (n : ℕ) (id : String) : Action EffectRequest ℕ EffectInput :=
  .begin ⟨inst n id, .reconcileEffect "k" .notApplied "operator"⟩

/-- The next command of thread `i`; processes other than one's own are gone. -/
def next (i : ℕ) : Action EffectRequest ℕ EffectInput :=
  .run i ⟨JsDate.ofMs 0, none, .ok none, false⟩

def restartedEffect : List (Action EffectRequest ℕ EffectInput) :=
  [callOnce 0 "a", next 0, next 0, next 0, next 0, next 0, .crash 0,
    callReconcile 1 "b", next 1, next 1, next 1, next 1,
    callOnce 1 "b", next 2, next 2, next 2, next 2, next 2]

theorem effects_atMostOnce_restart : ∃ cfg, Reach effectSystem noEffects cfg ∧
    (cfg.hist.entries.filter (startsBody "k")).map Entry.thread = [0, 2] ∧
    AtMostOnce cfg.hist := by
  have h : ∃ cfg, schedule effectSystem restartedEffect (.start noEffects) = some cfg ∧
      (cfg.hist.entries.filter (startsBody "k")).map Entry.thread = [0, 2] ∧
      Hist.checkFrom landsOnDead [] cfg.hist.events = true := ⟨_, rfl, by decide, by decide⟩
  obtain ⟨cfg, hrun, hstarts, hcheck⟩ := h
  have hr := schedule_reach .start hrun
  exact ⟨cfg, hr, hstarts, effects_atMostOnce hr (Hist.always_of_check landsOnDead_sound hcheck)⟩

def overlappingEffects : List (Action EffectRequest ℕ EffectInput) :=
  [callOnce 0 "a", callOnce 0 "a", next 0, next 1, next 0, next 1,
    next 0, next 0, next 0, next 1, next 1, next 1, next 1,
    callReconcile 0 "a", next 2, next 2, next 2,
    callOnce 0 "a", next 3, next 3, next 3, next 3, next 3]

theorem effects_overlap : ∃ cfg e e', Reach effectSystem noEffects cfg ∧ cfg.hist.dead = [] ∧
    Running "k" e cfg.hist ∧ Running "k" e' cfg.hist ∧ e.thread = 0 ∧ e'.thread = 3 ∧
    ¬ AtMostOnce cfg.hist := by
  have h : ∃ cfg, schedule effectSystem overlappingEffects (.start noEffects) = some cfg ∧
      cfg.hist.dead = [] ∧ (∀ e ∈ cfg.hist.entries, (bodyOutcome "k" e).isNone = true) ∧
      (cfg.hist.entries.filter (startsBody "k")).map Entry.thread = [0, 3] :=
    ⟨_, rfl, by decide, by decide, by decide⟩
  obtain ⟨cfg, hrun, hdead, hend, hstarts⟩ := h
  have running : ∀ i ∈ [0, 3], ∃ e, Running "k" e cfg.hist ∧ e.thread = i := by
    intro i hi
    rw [← hstarts] at hi
    obtain ⟨e, he, rfl⟩ := List.mem_map.mp hi
    obtain ⟨hmem, hs⟩ := List.mem_filter.mp he
    refine ⟨e, ⟨hmem, hs, fun e' he' => ?_, by simp [hdead]⟩, rfl⟩
    exact Option.isNone_iff_eq_none.mp (hend e' (List.mem_of_mem_filter he'))
  obtain ⟨e, he, h0⟩ := running 0 (by decide)
  obtain ⟨e', he', h3⟩ := running 3 (by decide)
  refine ⟨cfg, e, e', schedule_reach .start hrun, hdead, he, he', h0, h3, fun once => ?_⟩
  have := once.apart "k" e e' he he'
  omega

/-! Recorded outcomes. -/

variable {r : IdempotencyRecord}

/-- Only an open claim is settled, so what is done or failed stays as it is. -/
theorem EffectUpdate.apply_final {key : IdempotencyKey} {u : EffectUpdate} {now : JsDate}
    (hfinal : r.state = .done ∨ r.state = .failed) {out : Option IdempotencyRecord × Bool}
    (h : u.apply key now (some r) = .ok out) : out.1 = some r := by
  have hclosed : r.state ≠ .inFlight := by
    rintro hopen
    rw [hopen] at hfinal
    simp at hfinal
  cases u with
  | claim owner =>
    rcases claimUpdate_ok (show claimUpdate key owner now (some r) = .ok out from h) with rfl | ⟨hreleased, -⟩
    · rfl
    · rw [hreleased r rfl] at hfinal
      simp at hfinal
  | record owner value =>
    simp only [EffectUpdate.apply, except_map_eq_ok] at h
    obtain ⟨_, hr, -⟩ := h
    simp [recordUpdate, hclosed] at hr
  | recordFailure owner error =>
    simp only [EffectUpdate.apply, except_map_eq_ok] at h
    obtain ⟨_, hr, rfl⟩ := h
    simpa [recordFailureUpdate, hclosed, eq_comm] using hr
  | reconcile resolution actor =>
    simp only [EffectUpdate.apply, except_map_eq_ok] at h
    obtain ⟨_, hr, -⟩ := h
    simp [reconcileUpdate, hclosed] at hr

theorem final_step {cfg cfg' : EffectConfig} (hs : Step effectSystem cfg cfg')
    {key : IdempotencyKey} (hr : cfg.hist.shared.records.lookup key = some r)
    (hfinal : r.state = .done ∨ r.state = .failed) : cfg'.hist.shared.records.lookup key = some r := by
  cases hs with
  | begin c s alive admitted =>
    cases admitted
    exact hr
  | crash p => exact hr
  | run i c op next inp res s waiting executed =>
    by_cases hop : ∃ k u, op = .updateRecord k u
    · obtain ⟨k, u, rfl⟩ := hop
      rcases effectExec_update executed with ⟨-, -, rfl⟩ | ⟨out, happly, -, hkey, hother⟩
      · exact hr
      by_cases hk : key = k
      · subst hk
        rw [hr] at happly
        exact hkey.trans (EffectUpdate.apply_final hfinal happly)
      · exact (hother key hk).trans hr
    · have hrecords := effectExec_records executed fun k u heq => hop ⟨k, u, heq⟩
      exact (congrArg (·.lookup key) hrecords).trans hr

/-- An outcome that is recorded stays, whatever instances call, crash or reconcile later. -/
theorem outcomes_final {cfg cfg' : EffectConfig}
    (hs : Relation.ReflTransGen (Step effectSystem) cfg cfg') {key : IdempotencyKey}
    (hr : cfg.hist.shared.records.lookup key = some r)
    (hfinal : r.state = .done ∨ r.state = .failed) : cfg'.hist.shared.records.lookup key = some r := by
  induction hs with
  | refl => exact hr
  | tail _ hs ih => exact final_step hs ih hfinal

theorem outcomes_final_crash : ∃ (cfg cfg' : EffectConfig) (r : IdempotencyRecord),
    Reach effectSystem noEffects cfg ∧ Step effectSystem cfg cfg' ∧ cfg'.hist.dead = [0] ∧
    r.state = .done ∧ cfg'.hist.shared.records.lookup "k" = some r := by
  have h : ∃ cfg r, schedule effectSystem (callOnce 0 "a" :: List.replicate 7 (next 0))
      (.start noEffects) = some cfg ∧ cfg.hist.dead = [] ∧
      cfg.hist.shared.records.lookup "k" = some r ∧ r.state = .done := ⟨_, _, rfl, rfl, rfl, rfl⟩
  obtain ⟨cfg, r, hrun, hdead, hr, hdone⟩ := h
  have hs : Step effectSystem cfg _ := .crash cfg 0
  exact ⟨cfg, _, r, schedule_reach .start hrun, hs, by simp [hdead, effectSystem], hdone,
    outcomes_final (.single hs) hr (.inl hdone)⟩

end Wazir.Goals
