import Wazir.Async.Trace
import Wazir.Goals.LedgerSystem

/-! The committed history of a run. It lives partly in the envelope, as the latest batch, and
partly in a key per sequence number; commits move it from the one to the other. No crash
and no order of steps loses a transition, writes one twice or leaves a gap, and replaying
the history gives the ledger's statuses. -/

namespace Wazir.Goals

open Wazir.Async

/-- Replaying transitions from given statuses; `none` when one does not start where its
target is. -/
def replay : (TargetId → Option TargetStatus) → List TargetTransition →
    Option (TargetId → Option TargetStatus)
  | status, [] => some status
  | status, t :: rest =>
    if status t.targetId = some t.fromState then
      replay (Function.update status t.targetId (some t.toState)) rest
    else none

theorem replay_append (status : TargetId → Option TargetStatus) (ts ts' : List TargetTransition) :
    replay status (ts ++ ts') = (replay status ts).bind fun s => replay s ts' := by
  induction ts generalizing status with
  | nil => rfl
  | cons t rest ih =>
    simp only [List.cons_append, replay]
    split_ifs
    · exact ih _
    · rfl

theorem replay_stamp (stampedAt : Timestamp) (status : TargetId → Option TargetStatus)
    (ts : List TargetTransition) : replay status (ts.map (stamp stampedAt)) = replay status ts := by
  induction ts generalizing status with
  | nil => rfl
  | cons t rest ih => simp only [List.map_cons, replay, stamp, ih]

/-- Where `validateTransitions`'s cursor stands. -/
def cursorStatus (before : GoalRunLedger) (cursor : Table TargetId TargetStatus) (t : TargetId) :
    Option TargetStatus :=
  (before.statusOf t).map fun was => (cursor.lookup t).getD was

variable {runId : GoalRunId} {ts : List TargetTransition}

theorem followTransitions_replays {before after : GoalRunLedger} {index : ℕ}
    {cursor cursor' : Table TargetId TargetStatus}
    (h : followTransitions runId before after index cursor ts = .ok cursor') :
    replay (cursorStatus before cursor) ts = some (cursorStatus before cursor') := by
  induction ts generalizing index cursor with
  | nil =>
    cases h
    rfl
  | cons t rest ih =>
    simp only [followTransitions] at h
    split_ifs at h
    · simp at h
    · split at h <;> simp at h
    split at h
    · rename_i was _ hwas _
      split_ifs at h with hfrom
      · simp at h
      have hs : before.statusOf t.targetId = some was.status := by
        simp [GoalRunLedger.statusOf, hwas]
      have hcur : cursorStatus before cursor t.targetId = some t.fromState := by
        simp [cursorStatus, hs, not_not.mp hfrom]
      have hstep : cursorStatus before (cursor.insert t.targetId t.toState) =
          Function.update (cursorStatus before cursor) t.targetId (some t.toState) := by
        funext k
        by_cases hk : k = t.targetId
        · subst hk
          simp [cursorStatus, hs]
        · simp [cursorStatus, hk, AList.lookup_insert_ne]
      rw [replay, if_pos hcur, ← hstep]
      exact ih h
    · simp at h

theorem checkReached_eq {before after : GoalRunLedger} {cursor : Table TargetId TargetStatus}
    {ids : List TargetId} (h : checkReached before after cursor ids = .ok ()) :
    ∀ id ∈ ids, cursorStatus before cursor id = after.statusOf id := by
  induction ids with
  | nil => simp
  | cons id rest ih =>
    simp only [checkReached] at h
    split at h
    · rename_i was now hwas hnow
      split_ifs at h with hreach
      · simp at h
      simp only [List.mem_cons, forall_eq_or_imp]
      exact ⟨by simp [cursorStatus, hwas, hnow, not_not.mp hreach], ih h⟩
    · simp at h

theorem statusOf_none {l : GoalRunLedger} {t : TargetId} (h : t ∉ l.targets.keys) :
    l.statusOf t = none := by
  have hl : l.targets.lookup t = none := by
    rwa [AList.lookup_eq_none, AList.mem_keys]
  simp [GoalRunLedger.statusOf, hl]

/-- What a commit's validated transitions replay to. -/
theorem validateTransitions_replays {before after : GoalRunLedger}
    (h : validateTransitions runId before after ts = .ok ()) :
    replay before.statusOf ts = some after.statusOf := by
  simp only [validateTransitions, except_bind_eq_ok] at h
  obtain ⟨cursor, hfollow, hcheck⟩ := h
  have hstart : cursorStatus before ∅ = before.statusOf := by
    funext t
    simp [cursorStatus]
  have hend : cursorStatus before cursor = after.statusOf := by
    funext t
    by_cases ht : t ∈ before.targets.keys ++ after.targets.keys
    · exact checkReached_eq hcheck t (List.mem_dedup.mpr ht)
    · simp only [List.mem_append, not_or] at ht
      rw [statusOf_none ht.2]
      simp [cursorStatus, statusOf_none ht.1]
  rw [← hstart, ← hend]
  exact followTransitions_replays hfollow
/-! The history, read off the successful commits. -/

def batchOf : RunUpdate → JsDate → List TargetTransition
  | .commit _ _ _ ts, some now => ts.map (stamp now)
  | _, _ => []

def createdBy : RunUpdate → Option GoalRunLedger
  | .create ledger => some ledger
  | _ => none

/-- The transitions a successful commit on `runId` added. -/
def committedBatch (runId : GoalRunId) (e : LedgerEntry) : List TargetTransition :=
  match e.op, e.res with
  | .updateRun id u, .ok _ => if id = runId then batchOf u e.input.now else []
  | _, _ => []

def createdLedger (runId : GoalRunId) (e : LedgerEntry) : Option GoalRunLedger :=
  match e.op, e.res with
  | .updateRun id u, .ok _ => if id = runId then createdBy u else none
  | _, _ => none

def history (runId : GoalRunId) (h : LedgerHist) : List TargetTransition :=
  h.entries.flatMap (committedBatch runId)

/-- The ledger `createRun` wrote. -/
def created (runId : GoalRunId) (h : LedgerHist) : Option GoalRunLedger :=
  h.entries.findSome? (createdLedger runId)

theorem history_ran (runId : GoalRunId) (h : LedgerHist) (e : LedgerEntry) (s : LedgerShared) :
    history runId (h.push (.ran e) s) = history runId h ++ committedBatch runId e := by
  simp [history]

theorem created_ran (runId : GoalRunId) (h : LedgerHist) (e : LedgerEntry) (s : LedgerShared) :
    created runId (h.push (.ran e) s) = (created runId h).or (createdLedger runId e) := by
  simp only [created, Hist.entries_push_ran, List.findSome?_append]
  cases hc : createdLedger runId e <;> simp [List.findSome?, hc]

theorem committedBatch_quiet {e : LedgerEntry} (h : wrote e = false) :
    committedBatch runId e = [] := by
  obtain ⟨i, c, op, inp, r, before, after⟩ := e
  cases op with
  | updateRun id u =>
    cases r with
    | error x => rfl
    | ok out => cases h
  | _ => rfl

theorem createdLedger_quiet {e : LedgerEntry} (h : wrote e = false) :
    createdLedger runId e = none := by
  obtain ⟨i, c, op, inp, r, before, after⟩ := e
  cases op with
  | updateRun id u =>
    cases r with
    | error x => rfl
    | ok out => cases h
  | _ => rfl

/-! The invariant of one run. -/

structure HistoryInv (env : Option RunEnvelope) (keys : ℕ → Option StoredTransition)
    (H : List TargetTransition) (created : Option GoalRunLedger) : Prop where
  absent : env = none → H = [] ∧ created = none
  stored : ∀ seq st, keys seq = some st →
    st.seq = seq ∧ 1 ≤ seq ∧ H[seq - 1]? = some st.transition
  closed : ∀ seq, 1 ≤ seq → (keys (seq + 1)).isSome → (keys seq).isSome
  length : ∀ e, env = some e → e.transitionSeq = H.length
  batch : ∀ e b, env = some e → e.lastBatch = some b → 1 ≤ b.firstSeq ∧
    b.firstSeq ≤ H.length + 1 ∧ b.transitions = H.drop (b.firstSeq - 1) ∧
    ∀ seq, 1 ≤ seq → seq < b.firstSeq → (keys seq).isSome
  noBatch : ∀ e, env = some e → e.lastBatch = none → H = []
  replays : ∀ e, env = some e → ∃ l, created = some l ∧ replay l.statusOf H = some e.ledger.statusOf

namespace HistoryInv

variable {env : Option RunEnvelope} {keys : ℕ → Option StoredTransition}
  {H : List TargetTransition} {created : Option GoalRunLedger}

theorem same_ledger {old new : RunEnvelope} (h : HistoryInv (some old) keys H created)
    (hl : new.ledger = old.ledger) (hs : new.transitionSeq = old.transitionSeq)
    (hb : new.lastBatch = old.lastBatch) : HistoryInv (some new) keys H created where
  absent := by simp
  stored := h.stored
  closed := h.closed
  length := by
    rintro _ ⟨⟩
    rw [hs]
    exact h.length old rfl
  batch := by
    rintro _ b ⟨⟩ hbatch
    exact h.batch old b rfl (hb ▸ hbatch)
  noBatch := by
    rintro _ ⟨⟩ hbatch
    exact h.noBatch old rfl (hb ▸ hbatch)
  replays := by
    rintro _ ⟨⟩
    rw [hl]
    exact h.replays old rfl

/-- Writing the key that continues the materialised prefix. -/
theorem put {seq : ℕ} {st : StoredTransition} (h : HistoryInv env keys H created)
    (hseq : st.seq = seq) (hpos : 1 ≤ seq) (hH : H[seq - 1]? = some st.transition)
    (hprev : ∀ k, 1 ≤ k → k < seq → (keys k).isSome) :
    HistoryInv env (Function.update keys seq (some st)) H created where
  absent := h.absent
  stored := by
    intro k st' hk
    by_cases hks : k = seq
    · subst hks
      rw [Function.update_self] at hk
      cases hk
      exact ⟨hseq, hpos, hH⟩
    · rw [Function.update_of_ne hks] at hk
      exact h.stored k st' hk
  closed := by
    intro k hk hnext
    by_cases hks : k = seq
    · subst hks
      simp
    · rw [Function.update_of_ne hks]
      by_cases hks' : k + 1 = seq
      · exact hprev k hk (by omega)
      · rw [Function.update_of_ne hks'] at hnext
        exact h.closed k hk hnext
  length := h.length
  batch := by
    intro e b he hb
    obtain ⟨hone, hle, hdrop, hkeys⟩ := h.batch e b he hb
    refine ⟨hone, hle, hdrop, fun k hk hlt => ?_⟩
    by_cases hks : k = seq
    · subst hks
      simp
    · rw [Function.update_of_ne hks]
      exact hkeys k hk hlt
  noBatch := h.noBatch
  replays := h.replays

/-- A commit over a fully materialised history. -/
theorem commit {old new : RunEnvelope} {revision : ℤ} (h : HistoryInv (some old) keys H created)
    (hkeys : ∀ seq, 1 ≤ seq → seq ≤ H.length → (keys seq).isSome)
    (hseq : new.transitionSeq = old.transitionSeq + ts.length)
    (hbatch : new.lastBatch = some ⟨revision, old.transitionSeq + 1, ts⟩)
    (hreplay : replay old.ledger.statusOf ts = some new.ledger.statusOf) :
    HistoryInv (some new) keys (H ++ ts) created where
  absent := by simp
  stored := by
    intro seq st hst
    obtain ⟨h₁, h₂, h₃⟩ := h.stored seq st hst
    refine ⟨h₁, h₂, ?_⟩
    rw [List.getElem?_append_left (List.getElem?_eq_some_iff.mp h₃).1]
    exact h₃
  closed := h.closed
  length := by
    rintro _ ⟨⟩
    rw [hseq, h.length old rfl, List.length_append]
  batch := by
    rintro _ b ⟨⟩ hb
    rw [hbatch] at hb
    cases hb
    have hlen := h.length old rfl
    refine ⟨by simp, by simp [hlen], ?_, fun seq hpos hlt => hkeys seq hpos (Nat.le_of_lt_succ (hlen ▸ hlt))⟩
    rw [hlen, Nat.add_sub_cancel, List.drop_left]
  noBatch := by
    rintro _ ⟨⟩ hb
    simp [hbatch] at hb
  replays := by
    rintro _ ⟨⟩
    obtain ⟨l, hl, hr⟩ := h.replays old rfl
    exact ⟨l, hl, by rw [replay_append, hr]; exact hreplay⟩

end HistoryInv

/-- One `update` keeps the invariant, a commit only over a fully materialised history. -/
theorem HistoryInv.apply {u : RunUpdate} {now : JsDate} {current : Option RunEnvelope}
    {out : Option RunEnvelope × Option StoredLease} {keys : ℕ → Option StoredTransition}
    {H : List TargetTransition} {created : Option GoalRunLedger}
    (h : HistoryInv current keys H created) (hu : u.apply runId now current = .ok out)
    (hkeys : ∀ rev lease mutate ts, u = .commit rev lease mutate ts → ∀ e, current = some e →
      e.ledger.ledgerRevision = rev → ∀ seq, 1 ≤ seq → seq ≤ H.length → (keys seq).isSome) :
    HistoryInv out.1 keys (H ++ batchOf u now) (created.or (createdBy u)) := by
  cases u with
  | create ledger =>
    obtain ⟨e, he, rfl⟩ := except_map_eq_ok.mp hu
    obtain ⟨rfl, rfl⟩ := createUpdate_ok he
    obtain ⟨rfl, rfl⟩ := h.absent rfl
    have hnone : ∀ seq st, keys seq ≠ some st := fun seq st hst => by
      simpa using (h.stored seq st hst).2.2
    refine ⟨by simp, fun seq st hst => absurd hst (hnone seq st), fun seq _ hst => ?_, ?_, ?_, ?_, ?_⟩
    · obtain ⟨st, hst⟩ := Option.isSome_iff_exists.mp hst
      exact absurd hst (hnone _ st)
    · rintro _ ⟨⟩
      simp [batchOf]
    · rintro _ b ⟨⟩ ⟨⟩
    · simp [batchOf]
    · rintro _ ⟨⟩
      exact ⟨ledger, rfl, rfl⟩
  | commit expectedRevision lease mutate transitions =>
    obtain ⟨e, he, rfl⟩ := except_map_eq_ok.mp hu
    obtain ⟨old, draft, stampedAt, rfl, rfl, -, hrev, -, -, hvalid, rfl⟩ := commitUpdate_ok he
    have hreplay := validateTransitions_replays hvalid
    rw [← replay_stamp stampedAt] at hreplay
    simp only [createdBy, Option.or_none]
    exact h.commit (hkeys _ _ _ _ rfl old rfl hrev) (by simp [batchOf]) rfl hreplay
  | acquire holderId ttlMs =>
    obtain ⟨e, he, rfl⟩ := except_map_eq_ok.mp hu
    simp only [batchOf, createdBy, List.append_nil, Option.or_none]
    obtain ⟨old, rfl, rfl | ⟨lease, -, -, -, rfl⟩⟩ := acquireUpdate_ok he
    · exact h
    · exact h.same_ledger rfl rfl rfl
  | renew lease ttlMs =>
    obtain ⟨e, he, rfl⟩ := except_map_eq_ok.mp hu
    simp only [batchOf, createdBy, List.append_nil, Option.or_none]
    obtain ⟨old, held, expiresAt, rfl, -, -, -, -, rfl⟩ := renewUpdate_ok he
    exact h.same_ledger rfl rfl rfl
  | release lease =>
    obtain ⟨e, he, rfl⟩ := except_map_eq_ok.mp hu
    simp only [batchOf, createdBy, List.append_nil, Option.or_none]
    obtain rfl | ⟨old, held, expiresAt, rfl, -, -, -, -, rfl⟩ := releaseUpdate_ok he
    · exact h
    · exact h.same_ledger rfl rfl rfl

/-! The contract of the procedures. -/

def storedKeys (s : LedgerShared) (runId : GoalRunId) (seq : ℕ) : Option StoredTransition :=
  s.transitions.lookup (runId, seq)

def RunInv (runId : GoalRunId) (h : LedgerHist) : Prop :=
  HistoryInv (h.shared.runs.lookup runId) (storedKeys h.shared runId) (history runId h)
    (created runId h)

/-- Every sequence number from 1 up to but not including `seq` is materialised. -/
def Materialised (runId : GoalRunId) (seq : ℕ) (h : LedgerHist) : Prop :=
  ∀ k, 1 ≤ k → k < seq → (storedKeys h.shared runId k).isSome

/-- What a command needs to keep the invariant. -/
def Prepared (h : LedgerHist) : LedgerOp → Prop
  | .updateRun runId (.commit rev _ _ _) => ∀ e, h.shared.runs.lookup runId = some e →
      e.ledger.ledgerRevision = rev → Materialised runId ((history runId h).length + 1) h
  | .putTransition runId seq st => st.seq = seq ∧ 1 ≤ seq ∧
      (history runId h)[seq - 1]? = some st.transition ∧ Materialised runId seq h
  | _ => True

variable {inp : LedgerInput}

theorem storedKeys_update {s s' : LedgerShared} {id : GoalRunId} {u : RunUpdate}
    {r : LedgerRes (.updateRun id u)} (hx : ledgerExec (.updateRun id u) inp s = (r, s'))
    (runId : GoalRunId) : storedKeys s' runId = storedKeys s runId := by
  rcases ledgerExec_update hx with ⟨_, _, rfl⟩ | ⟨out, _, _, _, rfl⟩
  · rfl
  · funext seq
    simp [storedKeys]

theorem ledgerExec_put {s s' : LedgerShared} {id : GoalRunId} {seq : ℕ} {st : StoredTransition}
    {r : LedgerRes (.putTransition id seq st)}
    (hx : ledgerExec (.putTransition id seq st) inp s = (r, s')) :
    s' = s ∧ (∃ x, r = .error x) ∨
    (s'.runs = s.runs ∧ storedKeys s' id = Function.update (storedKeys s id) seq (some st) ∧
      ∀ runId, runId ≠ id → storedKeys s' runId = storedKeys s runId) := by
  simp only [ledgerExec] at hx
  split at hx
  · cases hx
    exact .inl ⟨rfl, _, rfl⟩
  cases hx
  refine .inr ⟨rfl, ?_, fun runId hid => ?_⟩
  · funext k
    by_cases hk : k = seq
    · subst hk
      simp [storedKeys]
    · rw [Function.update_of_ne hk]
      exact AList.lookup_insert_ne (by simpa using hk)
  · funext k
    exact AList.lookup_insert_ne (by simp [hid])

variable {h : LedgerHist}

theorem runInv_ran {i : ℕ} {c : LedgerRequest} {op : LedgerOp} {r : LedgerRes op} {s : LedgerShared}
    (hinv : ∀ runId, RunInv runId h) (hx : ledgerExec op inp h.shared = (r, s)) (hp : Prepared h op)
    (runId : GoalRunId) :
    RunInv runId (h.ran i c op inp r s) := by
  unfold RunInv Hist.ran
  rw [history_ran, created_ran, Hist.push_shared]
  cases op with
  | updateRun id u =>
    rw [storedKeys_update hx]
    rcases ledgerExec_update hx with ⟨x, rfl, rfl⟩ | ⟨out, hu, rfl, hl, hs⟩
    · rw [committedBatch_quiet rfl, createdLedger_quiet rfl, List.append_nil, Option.or_none]
      exact hinv runId
    by_cases hid : id = runId
    · subst hid
      rw [hl]
      simp only [committedBatch, createdLedger, if_true]
      refine (hinv id).apply hu ?_
      rintro rev lease mutate ts rfl e he hrev seq hpos hle
      exact hp e he hrev seq hpos (by omega)
    · rw [hs, LedgerShared.setRun_other _ _ (Ne.symm hid)]
      simp only [committedBatch, createdLedger, hid, if_false, List.append_nil, Option.or_none]
      exact hinv runId
  | putTransition id seq st =>
    rw [committedBatch_quiet rfl, createdLedger_quiet rfl, List.append_nil, Option.or_none]
    rcases ledgerExec_put hx with ⟨rfl, -⟩ | ⟨hruns, hkeys, hother⟩
    · exact hinv runId
    rw [hruns]
    by_cases hid : runId = id
    · subst hid
      rw [hkeys]
      exact (hinv runId).put hp.1 hp.2.1 hp.2.2.1 hp.2.2.2
    · rw [hother runId hid]
      exact hinv runId
  | _ =>
    cases hx
    rw [committedBatch_quiet rfl, createdLedger_quiet rfl, List.append_nil, Option.or_none]
    exact hinv runId

/-! What every command guarantees to the others: nothing is taken back. -/

structure Grows (runId : GoalRunId) (h h' : LedgerHist) : Prop where
  history : history runId h <+: history runId h'
  keys : ∀ seq, (storedKeys h.shared runId seq).isSome → (storedKeys h'.shared runId seq).isSome
  envelope : ∀ e, h.shared.runs.lookup runId = some e →
    ∃ e', h'.shared.runs.lookup runId = some e' ∧
      (e.ledger.ledgerRevision < e'.ledger.ledgerRevision ∨
        e'.ledger.ledgerRevision = e.ledger.ledgerRevision ∧ e'.lastBatch = e.lastBatch)

theorem Grows.refl (runId : GoalRunId) (h : LedgerHist) : Grows runId h h :=
  ⟨List.prefix_rfl, fun _ hs => hs, fun e he => ⟨e, he, .inr ⟨rfl, rfl⟩⟩⟩

theorem Grows.trans {h₁ h₂ h₃ : LedgerHist} (a : Grows runId h₁ h₂) (b : Grows runId h₂ h₃) :
    Grows runId h₁ h₃ where
  history := a.history.trans b.history
  keys seq hs := b.keys seq (a.keys seq hs)
  envelope e he := by
    obtain ⟨e₂, he₂, h₁₂⟩ := a.envelope e he
    obtain ⟨e₃, he₃, h₂₃⟩ := b.envelope e₂ he₂
    refine ⟨e₃, he₃, ?_⟩
    rcases h₁₂ with h | ⟨h, hb⟩ <;> rcases h₂₃ with h' | ⟨h', hb'⟩
    · exact .inl (by omega)
    · exact .inl (by omega)
    · exact .inl (by omega)
    · exact .inr ⟨by omega, by rw [hb', hb]⟩

theorem RunUpdate.apply_grows {u : RunUpdate} {now : JsDate} {old : RunEnvelope}
    {out : Option RunEnvelope × Option StoredLease} (h : u.apply runId now (some old) = .ok out) :
    ∃ new, out.1 = some new ∧ (old.ledger.ledgerRevision < new.ledger.ledgerRevision ∨
      new.ledger.ledgerRevision = old.ledger.ledgerRevision ∧ new.lastBatch = old.lastBatch) := by
  cases u with
  | create ledger =>
    simp only [RunUpdate.apply, except_map_eq_ok] at h
    obtain ⟨e, he, rfl⟩ := h
    cases (createUpdate_ok he).1
  | commit expectedRevision lease mutate transitions =>
    obtain ⟨e, he, rfl⟩ := except_map_eq_ok.mp h
    obtain ⟨_, draft, stampedAt, ⟨⟩, -, -, hrev, -, -, -, rfl⟩ := commitUpdate_ok he
    exact ⟨_, rfl, .inl (by simp [hrev])⟩
  | acquire holderId ttlMs =>
    obtain ⟨e, he, rfl⟩ := except_map_eq_ok.mp h
    obtain ⟨_, ⟨⟩, rfl | ⟨lease, -, -, -, rfl⟩⟩ := acquireUpdate_ok he <;>
      exact ⟨_, rfl, .inr ⟨rfl, rfl⟩⟩
  | renew lease ttlMs =>
    obtain ⟨e, he, rfl⟩ := except_map_eq_ok.mp h
    obtain ⟨_, held, expiresAt, ⟨⟩, -, -, -, -, rfl⟩ := renewUpdate_ok he
    exact ⟨_, rfl, .inr ⟨rfl, rfl⟩⟩
  | release lease =>
    obtain ⟨e, he, rfl⟩ := except_map_eq_ok.mp h
    obtain rfl | ⟨_, held, expiresAt, ⟨⟩, -, -, -, -, rfl⟩ := releaseUpdate_ok he <;>
      exact ⟨_, rfl, .inr ⟨rfl, rfl⟩⟩

theorem grows_ran {i : ℕ} {c : LedgerRequest} {op : LedgerOp} {r : LedgerRes op} {s : LedgerShared}
    (hx : ledgerExec op inp h.shared = (r, s)) (runId : GoalRunId) :
    Grows runId h (h.ran i c op inp r s) := by
  have hhist : history runId h <+: history runId (h.ran i c op inp r s) := by
    unfold Hist.ran
    rw [history_ran]
    exact List.prefix_append ..
  cases op with
  | updateRun id u =>
    refine ⟨hhist, fun seq hs => ?_, fun e he => ?_⟩
    · rwa [Hist.ran, Hist.push_shared, storedKeys_update hx]
    rw [Hist.ran, Hist.push_shared]
    rcases ledgerExec_update hx with ⟨_, _, rfl⟩ | ⟨out, hu, rfl, hl, hs⟩
    · exact ⟨e, he, .inr ⟨rfl, rfl⟩⟩
    by_cases hid : runId = id
    · subst hid
      rw [he] at hu
      obtain ⟨new, hnew, hg⟩ := RunUpdate.apply_grows hu
      exact ⟨new, hl.trans hnew, hg⟩
    · rw [hs, LedgerShared.setRun_other _ _ hid]
      exact ⟨e, he, .inr ⟨rfl, rfl⟩⟩
  | putTransition id seq st =>
    rcases ledgerExec_put hx with ⟨rfl, -⟩ | ⟨hruns, hkeys, hother⟩
    · exact ⟨hhist, fun seq hs => hs, fun e he => ⟨e, he, .inr ⟨rfl, rfl⟩⟩⟩
    refine ⟨hhist, fun k hs => ?_, fun e he => ⟨e, ?_, .inr ⟨rfl, rfl⟩⟩⟩
    · rw [Hist.ran, Hist.push_shared]
      by_cases hid : runId = id
      · subst hid
        rw [hkeys]
        by_cases hk : k = seq
        · subst hk
          simp
        · rwa [Function.update_of_ne hk]
      · rwa [hother runId hid]
    · rwa [Hist.ran, Hist.push_shared, hruns]
  | _ =>
    cases hx
    exact ⟨hhist, fun seq hs => hs, fun e he => ⟨e, he, .inr ⟨rfl, rfl⟩⟩⟩

theorem Grows.materialised {h h' : LedgerHist} {seq : ℕ} (g : Grows runId h h')
    (hm : Materialised runId seq h) : Materialised runId seq h' :=
  fun k hk hlt => g.keys k (hm k hk hlt)

/-- The batch is part of the history, and everything before it is materialised. -/
structure BatchIn (runId : GoalRunId) (seq : ℕ) (ts : List TargetTransition) (h : LedgerHist) :
    Prop where
  pos : 1 ≤ seq
  content : ∀ k t, ts[k]? = some t → (history runId h)[seq - 1 + k]? = some t
  before : Materialised runId seq h

theorem BatchIn.mono {seq : ℕ} {h h' : LedgerHist} (b : BatchIn runId seq ts h)
    (g : Grows runId h h') : BatchIn runId seq ts h' where
  pos := b.pos
  content k t hk := by
    have hc := b.content k t hk
    obtain ⟨rest, hrest⟩ := g.history
    rw [← hrest, List.getElem?_append_left (List.getElem?_eq_some_iff.mp hc).1]
    exact hc
  before := g.materialised b.before

theorem HistoryInv.batchIn {e : RunEnvelope} {b : TransitionBatch} (hinv : RunInv runId h)
    (he : h.shared.runs.lookup runId = some e) (hb : e.lastBatch = some b) :
    BatchIn runId b.firstSeq b.transitions h := by
  obtain ⟨hpos, -, hdrop, hkeys⟩ := hinv.batch e b he hb
  refine ⟨hpos, fun k t hk => ?_, hkeys⟩
  rwa [hdrop, List.getElem?_drop] at hk

def historyContract : Contract LedgerOp LedgerRes LedgerRequest ℕ LedgerInput LedgerShared where
  Ok _ := True
  Inv h := ∀ runId, RunInv runId h
  Rely _ _ h h' := ∀ runId, Grows runId h h'

/-! Each procedure keeps the contract. -/

section Safety

variable {α : Type} {i : ℕ} {c : LedgerRequest}
  {Q : Except Thrown α → LedgerHist → Prop}

theorem safe_call {op : LedgerOp} {next : LedgerRes op → LedgerProg α}
    (prepared : ∀ h', (∀ runId, Grows runId h h') → (∀ runId, RunInv runId h') → Prepared h' op)
    (rest : ∀ h' inp r s, (∀ runId, Grows runId h h') → (∀ runId, RunInv runId h') →
      ledgerExec op inp h'.shared = (r, s) →
      Safe ledgerSystem historyContract i c Q (next r) (h'.ran i c op inp r s)) :
    Safe ledgerSystem historyContract i c Q (.call op next) h := by
  intro h' inp r s hrely hinv hx _
  have hx' : ledgerExec op inp h'.shared = (r, s) := by simpa [ledgerSystem] using hx
  exact ⟨runInv_ran hinv hx' (prepared h' hrely hinv), fun _ _ _ => grows_ran hx',
    rest h' inp r s hrely hinv hx'⟩

theorem materialised_succ {seq : ℕ} (hm : Materialised runId seq h)
    (hs : (storedKeys h.shared runId seq).isSome) :
    Materialised runId (seq + 1) h := fun k hpos hlt => by
  rcases Nat.lt_succ_iff_lt_or_eq.mp hlt with hk | rfl
  · exact hm k hpos hk
  · exact hs

theorem BatchIn.tail {seq : ℕ} {t : TargetTransition} (b : BatchIn runId seq (t :: ts) h)
    (hs : (storedKeys h.shared runId seq).isSome) : BatchIn runId (seq + 1) ts h where
  pos := Nat.le_add_left 1 seq
  content k t' hk := by
    have hc := b.content (k + 1) t' (by simpa using hk)
    have hpos := b.pos
    rwa [show seq + 1 - 1 + k = seq - 1 + (k + 1) by omega]
  before := materialised_succ b.before hs

namespace GoalLedgerStore

/-- Materialising a batch of the history writes only what is due, and leaves no gap. -/
theorem materialiseFrom_safe {revision : ℤ} {seq : ℕ} (hb : BatchIn runId seq ts h) :
    Safe ledgerSystem historyContract i c
      (fun out h' => (∀ id, Grows id h h') ∧
        (out = .ok () → Materialised runId (seq + ts.length) h'))
      (materialiseFrom runId revision seq ts) h := by
  induction ts generalizing seq h with
  | nil => exact ⟨fun id => .refl id h, fun _ => hb.before⟩
  | cons t rest ih =>
    -- once `seq` is there, the rest is the induction hypothesis from here
    have next : ∀ h', (∀ id, Grows id h h') → (storedKeys h'.shared runId seq).isSome →
        Safe ledgerSystem historyContract i c
          (fun out h'' => (∀ id, Grows id h h'') ∧
            (out = .ok () → Materialised runId (seq + (t :: rest).length) h''))
          (materialiseFrom runId revision (seq + 1) rest) h' := by
      intro h' hg hs
      refine (ih ((hb.mono (hg runId)).tail hs)).mono fun out h'' hQ => ⟨?_, fun hout => ?_⟩
      · exact fun id => (hg id).trans (hQ.1 id)
      · have hm := hQ.2 hout
        rwa [show seq + 1 + rest.length = seq + (t :: rest).length by simp; omega] at hm
    refine safe_call (fun _ _ _ => trivial) fun h' inp r s hg hinv hx => ?_
    have hg₁ : ∀ id, Grows id h (h'.ran i c _ inp r s) := fun id => (hg id).trans (grows_ran hx id)
    cases r with
    | error x => exact ⟨hg₁, fun hout => by cases hout⟩
    | ok present =>
      simp only [Prog.resume_ok, Prog.bind_ret]
      have hread : guarded inp.fault (h'.shared.transitions.lookup (runId, seq)) = .ok present :=
        congrArg Prod.fst hx
      have hs : h'.shared = s := congrArg Prod.snd hx
      split_ifs with hp
      · refine next _ hg₁ ?_
        unfold guarded at hread
        split at hread
        · cases hread
        · cases hread
          rw [Hist.ran, Hist.push_shared, ← hs]
          exact hp
      · refine safe_call (fun h'' hg₂ _ => ?_) fun h'' inp' r' s' hg₂ hinv' hx' => ?_
        · have hb' := hb.mono ((hg₁ runId).trans (hg₂ runId))
          exact ⟨rfl, hb'.pos, hb'.content 0 t rfl, hb'.before⟩
        · have hg₃ := fun id => (hg₁ id).trans ((hg₂ id).trans (grows_ran (i := i) (c := c) hx' id))
          cases r' with
          | error x => exact ⟨hg₃, fun hout => by cases hout⟩
          | ok u =>
            refine next _ hg₃ ?_
            rcases ledgerExec_put hx' with ⟨-, x, hr⟩ | ⟨-, hkeys, -⟩
            · cases hr
            · rw [Hist.ran, Hist.push_shared, hkeys]
              simp

theorem materialise_safe {r : GoalRunId} {l : Option TransitionBatch}
    (hb : ∀ b, l = some b → BatchIn r b.firstSeq b.transitions h) :
    Safe ledgerSystem historyContract i c
      (fun out h' => (∀ id, Grows id h h') ∧ (out = .ok () → ∀ b, l = some b →
        Materialised r (b.firstSeq + b.transitions.length) h'))
      (materialise r l) h := by
  cases l with
  | none => exact ⟨fun id => .refl id h, fun _ b hb => by cases hb⟩
  | some b =>
    refine (materialiseFrom_safe (hb b rfl)).mono fun out h' hQ => ⟨hQ.1, ?_⟩
    rintro hout _ ⟨⟩
    exact hQ.2 hout

theorem requireEnvelope_safe (runId : GoalRunId) (h : LedgerHist) :
    Safe ledgerSystem historyContract i c
      (fun out h' => ∀ e, out = .ok e → h'.shared.runs.lookup runId = some e ∧
        ∀ id, RunInv id h')
      (requireEnvelope runId) h := by
  refine safe_call (fun _ _ _ => trivial) fun h' inp r s _ hinv hx => ?_
  have hinv' : ∀ id, RunInv id (h'.ran i c _ inp r s) := fun id => runInv_ran hinv hx trivial id
  have hread : guarded inp.fault (h'.shared.runs.lookup runId) = r := congrArg Prod.fst hx
  have hs : h'.shared = s := congrArg Prod.snd hx
  cases r with
  | error x => rintro e ⟨⟩
  | ok env =>
    cases env with
    | none => rintro e ⟨⟩
    | some env =>
      simp only [Prog.resume_ok, Prog.bind_ret]
      split_ifs
      · rintro e ⟨⟩
      · rintro e ⟨⟩
        refine ⟨?_, hinv'⟩
        unfold guarded at hread
        split at hread
        · cases hread
        · rw [Hist.ran, Hist.push_shared, ← hs]
          exact Except.ok.inj hread

theorem commit_safe (runId : GoalRunId) (expectedRevision : ℤ) (lease : RunLease)
    (mutate : GoalRunLedger → Except Thrown GoalRunLedger) (ts : List TargetTransition)
    (h : LedgerHist) :
    Safe ledgerSystem historyContract i c (fun _ _ => True)
      (commit runId expectedRevision lease mutate ts) h := by
  unfold commit
  split_ifs
  · trivial
  refine (requireEnvelope_safe runId h).bind (fun before h₀ hread => ?_) fun _ _ _ => trivial
  obtain ⟨hbefore, hinv₀⟩ := hread before rfl
  refine safe_call (fun _ _ _ => trivial) fun h₁ inp now s hg₁ _ hx₁ => ?_
  have hg : ∀ id, Grows id h₀ (h₁.ran i c _ inp now s) :=
    fun id => (hg₁ id).trans (grows_ran hx₁ id)
  simp only [Prog.bind_ret, Prog.bind_def]
  cases assertCurrentLease before lease now with
  | error x => trivial
  | ok u =>
    simp only [Prog.resume_ok, Prog.bind_ret]
    split_ifs with hrev
    · trivial
    refine (materialise_safe (r := runId) (l := before.lastBatch) fun b hb =>
      (HistoryInv.batchIn (hinv₀ runId) hbefore hb).mono (hg runId)).bind
      (fun _ h₂ hm => ?_) fun _ _ _ => trivial
    obtain ⟨hg₂, hm⟩ := hm
    -- the envelope the compare-and-set finds still has the batch just materialised
    have prepared : ∀ h₃, (∀ id, Grows id h₂ h₃) → (∀ id, RunInv id h₃) →
        Prepared h₃ (.updateRun runId (.commit expectedRevision lease mutate ts)) := by
      intro h₃ hg₃ hinv₃ e he he'
      have hg₀₃ := (hg runId).trans ((hg₂ runId).trans (hg₃ runId))
      obtain ⟨e', hlook, hlater | ⟨-, hbatch⟩⟩ := hg₀₃.envelope before hbefore
      · rw [he] at hlook
        cases hlook
        omega
      rw [he] at hlook
      cases hlook
      cases hb : before.lastBatch with
      | none =>
        rw [(hinv₃ runId).noBatch e he (hbatch.trans hb)]
        intro k hpos hlt
        simp at hlt
        omega
      | some b =>
        obtain ⟨hpos, hle, hdrop, -⟩ := (hinv₃ runId).batch e b he (hbatch.trans hb)
        have hlen : b.firstSeq + b.transitions.length = (history runId h₃).length + 1 := by
          rw [hdrop, List.length_drop]
          omega
        rw [← hlen]
        exact (hg₃ runId).materialised (hm rfl b hb)
    refine safe_call prepared fun h₃ inp' r s' hg₃ hinv₃ hx₃ => ?_
    have hinv₄ := fun id => runInv_ran (i := i) (c := c) hinv₃ hx₃ (prepared h₃ hg₃ hinv₃) id
    rcases ledgerExec_update hx₃ with ⟨x, rfl, -⟩ | ⟨out, -, rfl, hlook, -⟩
    · trivial
    simp only [Prog.resume_ok, Prog.bind_ret]
    cases hout : out.1 with
    | none => trivial
    | some envelope =>
      rw [hout] at hlook
      simp only [Prog.handle]
      refine Safe.bind (R := fun _ _ => True) ?_ (fun _ _ _ => trivial) fun _ _ _ => trivial
      refine (materialise_safe (r := runId) (l := envelope.lastBatch) fun b hb =>
        HistoryInv.batchIn (hinv₄ runId) hlook hb).settle fun out' h' _ => ?_
      cases out' <;> trivial

end GoalLedgerStore

/-- Commands that need no preparation. -/
def LedgerOp.free : LedgerOp → Prop
  | .updateRun _ (.commit _ _ _ _) => False
  | .putTransition _ _ _ => False
  | _ => True

theorem safe_of_free {p : LedgerProg α} (hp : p.Only LedgerOp.free) (h : LedgerHist) :
    Safe ledgerSystem historyContract i c (fun _ _ => True) p h := by
  refine Safe.of_only (fun h' op inp r s hop hinv hx _ => ?_) hp h
  have hx' : ledgerExec op inp h'.shared = (r, s) := by simpa [ledgerSystem] using hx
  refine ⟨runInv_ran hinv hx' ?_, fun _ _ _ => grows_ran hx'⟩
  cases op with
  | updateRun id u =>
    cases u with
    | commit rev lease mutate ts => exact hop.elim
    | _ => trivial
  | putTransition id seq st => exact hop.elim
  | _ => trivial

namespace GoalLedgerStore

theorem readEnvelope_free (runId : GoalRunId) : (readEnvelope runId).Only LedgerOp.free := by
  refine ⟨trivial, fun r => Prog.Only.bind (by simp) fun env => ?_⟩
  cases env with
  | none => trivial
  | some env =>
    dsimp only
    split_ifs <;> simp

theorem getRun_free (runId : GoalRunId) : (getRun runId).Only LedgerOp.free :=
  (readEnvelope_free runId).bind fun _ => trivial

theorem currentLease_free (runId : GoalRunId) : (currentLease runId).Only LedgerOp.free :=
  (readEnvelope_free runId).bind fun _ => trivial

theorem requireEnvelope_free (runId : GoalRunId) :
    (requireEnvelope runId).Only LedgerOp.free := by
  refine (readEnvelope_free runId).bind fun env => ?_
  cases env <;> simp

theorem createRun_free (graph : GoalGraphRevisionRecord) (createdBy : String)
    (runId : Option GoalRunId) : (createRun graph createdBy runId).Only LedgerOp.free := by
  unfold createRun
  split_ifs
  · simp
  refine .bind (by cases runId <;> simp [runIdOr, LedgerOp.free]) fun id => ?_
  split_ifs
  · simp
  exact .bind (by simp [LedgerOp.free]) fun now => .bind (by simp) fun ledger =>
    .bind ⟨trivial, by simp⟩ fun _ => trivial

theorem acquireLease_free (runId : GoalRunId) (holderId : String) (ttlMs : ℤ) :
    (acquireLease runId holderId ttlMs).Only LedgerOp.free := by
  unfold acquireLease
  split_ifs
  · simp
  · simp
  exact (requireEnvelope_free runId).bind fun _ => .bind ⟨trivial, by simp⟩ fun _ => trivial

theorem renewLease_free (lease : RunLease) (ttlMs : ℤ) :
    (renewLease lease ttlMs).Only LedgerOp.free := by
  unfold renewLease
  split_ifs
  · simp
  refine (requireEnvelope_free lease.runId).bind fun _ => .bind ⟨trivial, by simp⟩ fun out => ?_
  cases out.2 <;> simp

theorem releaseLease_free (lease : RunLease) : (releaseLease lease).Only LedgerOp.free := by
  refine (readEnvelope_free lease.runId).bind fun env => ?_
  split
  · trivial
  split_ifs
  · trivial
  · exact .bind ⟨trivial, by simp⟩ fun _ => trivial

theorem transitions_free (runId : GoalRunId) (targetId : Option TargetId) :
    (transitions runId targetId).Only LedgerOp.free :=
  .bind ⟨trivial, by simp⟩ fun _ => (readEnvelope_free runId).bind fun _ => trivial

end GoalLedgerStore

theorem body_safe (call : LedgerCall) (h : LedgerHist) :
    Safe ledgerSystem historyContract i c (fun _ _ => True) call.body h := by
  have lift : ∀ {α : Type} {f : α → LedgerReply} {p : LedgerProg α},
      Safe ledgerSystem historyContract i c (fun _ _ => True) p h →
      Safe ledgerSystem historyContract i c (fun _ _ => True) (f <$> p) h :=
    fun hp => hp.bind (fun _ _ _ => trivial) fun _ _ _ => trivial
  cases call with
  | createRun graph createdBy runId => exact lift (safe_of_free (GoalLedgerStore.createRun_free ..) h)
  | commit runId rev lease mutate ts => exact lift (GoalLedgerStore.commit_safe ..)
  | acquireLease runId holderId ttlMs =>
    exact lift (safe_of_free (GoalLedgerStore.acquireLease_free ..) h)
  | renewLease lease ttlMs => exact lift (safe_of_free (GoalLedgerStore.renewLease_free ..) h)
  | releaseLease lease => exact lift (safe_of_free (GoalLedgerStore.releaseLease_free ..) h)
  | transitions runId targetId =>
    exact lift (safe_of_free (GoalLedgerStore.transitions_free ..) h)
  | getRun runId => exact lift (safe_of_free (GoalLedgerStore.getRun_free runId) h)
  | currentLease runId => exact lift (safe_of_free (GoalLedgerStore.currentLease_free runId) h)

end Safety

theorem historyContract_upheld :
    historyContract.Upheld ledgerSystem fun _ _ _ _ => True where
  okPrefix _ _ _ _ := trivial
  refl _ _ h id := .refl id h
  trans _ _ _ _ _ a b id := (a id).trans (b id)
  began := by
    rintro h i c s hinv - - ⟨⟩ -
    have hsame : ∀ id, RunInv id (h.push (.began i c) h.shared) := fun id => by
      simpa [RunInv, history, created] using hinv id
    refine ⟨hsame, fun _ _ _ id => ⟨?_, fun _ hs => hs, fun e he => ⟨e, he, .inr ⟨rfl, rfl⟩⟩⟩,
      body_safe c.call _⟩
    simp [history]
  crashed := by
    intro h p hinv _
    refine ⟨fun id => ?_, fun _ _ _ id =>
      ⟨?_, fun _ hs => hs, fun e he => ⟨e, he, .inr ⟨rfl, rfl⟩⟩⟩⟩
    · simpa [RunInv, history, created, ledgerSystem] using hinv id
    · simp [history]

theorem runInv_reach {cfg : LedgerConfig} (hr : Reach ledgerSystem emptyStore cfg)
    (runId : GoalRunId) : RunInv runId cfg.hist := by
  refine (historyContract_upheld.run ?_ hr trivial).1 runId
  intro id
  refine ⟨?_, ?_, ?_, ?_, ?_, ?_, ?_⟩ <;>
    simp [emptyStore, storedKeys, history, created, Hist.entries]

end Wazir.Goals
