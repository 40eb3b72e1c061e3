import Wazir.Shared.JsonFileStore

/-! The lock of a JSON file store and the fingerprints its instances keep: tokens tell the
acquisitions apart, only the holder of the lock changes the file, and every change gives the
file a fingerprint no instance knows yet. -/

namespace Wazir.Shared

open Wazir.Async

/-! State updates. -/

/-- No file is an empty map. -/
def StoreShared.contents (s : StoreShared) : Table String Json :=
  (s.file.map StoredFile.contents).getD ∅

@[simp] theorem contents_some {s : StoreShared} {f : StoredFile} (h : s.file = some f) :
    s.contents = f.contents := by simp [StoreShared.contents, h]

section SetStore

variable {s : StoreShared} {hd : StoreHandle} {store : JsonFileStore}

@[simp] theorem setStore_file : (s.setStore hd store).file = s.file := rfl

@[simp] theorem setStore_stamps : (s.setStore hd store).stamps = s.stamps := rfl

@[simp] theorem setStore_lock : (s.setStore hd store).lock = s.lock := rfl

@[simp] theorem setStore_tokens : (s.setStore hd store).tokens = s.tokens := rfl

@[simp] theorem setStore_contents : (s.setStore hd store).contents = s.contents := rfl

@[simp] theorem store_setStore : (s.setStore hd store).store hd = store := by
  simp [StoreShared.store, StoreShared.setStore, AList.lookup_insert]

theorem store_setStore_ne {hd' : StoreHandle} (h : hd' ≠ hd) :
    (s.setStore hd store).store hd' = s.store hd' := by
  simp [StoreShared.store, StoreShared.setStore, AList.lookup_insert_ne h]

end SetStore

/-- The fingerprint an update assigns. -/
def StoreUpdate.stat : StoreUpdate → Option ℕ
  | .read st _ _ => st
  | .statted st => st
  | _ => none

/-- The updates that only a writer in its lock makes. -/
def StoreUpdate.exclusive : StoreUpdate → Bool
  | .read _ _ adopt => !adopt
  | .serialize _ _ => true
  | .statted _ => true
  | .adopted _ => true
  | _ => false

variable {dateImage : String → Json}

theorem ensureKeyRevived_lastStat {store : JsonFileStore} {key : String} :
    (store.ensureKeyRevived dateImage key).lastStat = store.lastStat := by
  unfold JsonFileStore.ensureKeyRevived
  split
  · rfl
  · split_ifs <;> rfl

theorem foldl_ensureKeyRevived {P : JsonFileStore → Prop}
    (step : ∀ store key, P store → P (store.ensureKeyRevived dateImage key)) (keys : List String)
    {store : JsonFileStore} (h : P store) :
    P (keys.foldl (·.ensureKeyRevived dateImage ·) store) := by
  induction keys generalizing store with
  | nil => exact h
  | cons key rest ih => exact ih (step store key h)

theorem apply_lastStat {s : JsonFileStore} (u : StoreUpdate) :
    (u.apply dateImage s).lastStat = s.lastStat ∨
      (u.apply dateImage s).lastStat = u.stat := by
  cases u with
  | noFile adopt => cases adopt <;> exact .inr rfl
  | read st parsed adopt => cases adopt <;> exact .inr rfl
  | reviveKey key => exact .inl ensureKeyRevived_lastStat
  | reviveAll head =>
    exact .inl (foldl_ensureKeyRevived (P := fun t => t.lastStat = s.lastStat)
      (fun _ _ h => ensureKeyRevived_lastStat.trans h) _ rfl)
  | updating key shared =>
    left
    simp only [StoreUpdate.apply]
    split
    · split_ifs <;> rfl
    · rfl
  | readFailed => exact .inr rfl
  | statted st => exact .inr rfl
  | _ => exact .inl rfl

/-! What a command in the history stands for. -/

def writeDone (e : StoreEntry) : Bool :=
  match e.op, e.res with
  | .rename _ _, .ok _ => true
  | _, _ => false

/-- The token with which the lock was acquired. -/
def acquired (e : StoreEntry) : Option ℕ :=
  match e.op, e.res with
  | .acquire _, .ok token => some token
  | _, _ => none

def lastAcquire (h : StoreHist) : Option StoreEntry :=
  (h.entries.filter fun e => (acquired e).isSome).getLast?

theorem lastAcquire_ran (h : StoreHist) (e : StoreEntry) (s : StoreShared) :
    lastAcquire (h.push (.ran e) s) = if (acquired e).isSome then some e else lastAcquire h := by
  simp only [lastAcquire, Hist.entries_push_ran, List.filter_append, List.filter_cons,
    List.filter_nil]
  split_ifs <;> simp

variable {h : StoreHist}

theorem lastAcquire_mem {a : StoreEntry} (ha : lastAcquire h = some a) :
    a ∈ h.entries :=
  List.mem_of_mem_filter (List.mem_of_getLast? ha)

/-! The holder of the lock. -/

def Owns (i : ℕ) (token : ℕ) (h : StoreHist) : Prop :=
  ∃ e ∈ h.entriesOf i, acquired e = some token

def Holding (i : ℕ) (r : StoreRequest) (token : ℕ) (h : StoreHist) : Prop :=
  Owns i token h ∧ h.shared.lock = some (r.handle, token)

/-- `ordered` says that every write that goes through is made by the thread that acquired the
lock last. -/
structure LockInv (h : StoreHist) : Prop where
  stat : ∀ f, h.shared.file = some f → f.stat < h.shared.stamps
  lastStat : ∀ hd st, (h.shared.store hd).lastStat = some st → st < h.shared.stamps
  tokens : ∀ e ∈ h.entries, ∀ t, acquired e = some t → t < h.shared.tokens ∧
    ∀ e' ∈ h.entries, acquired e' = some t → e'.thread = e.thread
  locked : ∀ hd t, h.shared.lock = some (hd, t) →
    ∃ a, lastAcquire h = some a ∧ acquired a = some t
  ordered : ∀ pre e post, h.events = pre ++ .ran e :: post → writeDone e = true →
    ∃ a, lastAcquire ⟨pre, e.before⟩ = some a ∧ a.thread = e.thread

theorem LockInv.owner (inv : LockInv h) {i j token : ℕ} (hi : Owns i token h) (hj : Owns j token h) :
    i = j := by
  obtain ⟨e, he, ht⟩ := hi
  obtain ⟨e', he', ht'⟩ := hj
  obtain ⟨hmem, hth⟩ := List.mem_filter.mp he
  obtain ⟨hmem', hth'⟩ := List.mem_filter.mp he'
  rw [← of_decide_eq_true hth, ← of_decide_eq_true hth',
    (inv.tokens e hmem token ht).2 e' hmem' ht']

theorem Holding.same (inv : LockInv h) {i j t t' : ℕ} {r d : StoreRequest} (hi : Holding i r t h)
    (hj : Holding j d t' h) : i = j := by
  have hlock := hi.2.symm.trans hj.2
  simp only [Option.some.injEq, Prod.mk.injEq] at hlock
  exact inv.owner hi.1 (hlock.2 ▸ hj.1)

theorem LockInv.holder (inv : LockInv h) {i t : ℕ} {r : StoreRequest} (hi : Holding i r t h) :
    ∃ a, lastAcquire h = some a ∧ a.thread = i := by
  obtain ⟨a, ha, ht⟩ := inv.locked _ _ hi.2
  obtain ⟨e, he, hte⟩ := hi.1
  obtain ⟨hmem, hth⟩ := List.mem_filter.mp he
  refine ⟨a, ha, ?_⟩
  rw [← of_decide_eq_true hth]
  exact (inv.tokens e hmem t hte).2 a (lastAcquire_mem ha) ht

/-- What a thread must have done, or hold, for its next command. -/
def Locked (i : ℕ) (r : StoreRequest) (h : StoreHist) : StoreOp → Prop
  | .acquire hd => hd = r.handle
  | .release token => Owns i token h
  | .rename _ _ => ∃ token, Holding i r token h
  | .chmod => ∃ token, Holding i r token h
  | .store hd u => hd = r.handle ∧ (u.exclusive = true → ∃ token, Holding i r token h) ∧
    ∀ st, u.stat = some st → st < h.shared.stamps
  | _ => True

/-- Commands that change neither the file nor the lock, and what an instance keeps about the
file only as a reader does. -/
def StoreOp.idle : StoreOp → Prop
  | .acquire _ => False
  | .release _ => False
  | .rename _ _ => False
  | .chmod => False
  | .store _ u => u.exclusive = false
  | _ => True

theorem Owns.ran {i j token : ℕ} {r : StoreRequest} {op : StoreOp} {inp : StoreInput}
    {res : StoreRes op} {s : StoreShared} (ho : Owns j token h) :
    Owns j token (h.ran i r op inp res s) := by
  obtain ⟨e, he, ht⟩ := ho
  refine ⟨e, ?_, ht⟩
  rw [Hist.ran, Hist.entriesOf_push_ran]
  exact List.mem_append_left _ he

section Ran

variable {dateImage : String → Json} {h : StoreHist} {i : ℕ} {r : StoreRequest} {op : StoreOp}
  {inp : StoreInput} {res : StoreRes op} {s : StoreShared}

/-- A command that neither acquires nor writes. -/
theorem lockInv_quiet (inv : LockInv h) (hacq : acquired ⟨i, r, op, inp, res, h.shared, s⟩ = none)
    (hwrite : writeDone ⟨i, r, op, inp, res, h.shared, s⟩ = false)
    (hstat : ∀ f, s.file = some f → f.stat < s.stamps)
    (hlast : ∀ hd st, (s.store hd).lastStat = some st → st < s.stamps)
    (htok : s.tokens = h.shared.tokens)
    (hlock : ∀ l, s.lock = some l → h.shared.lock = some l) : LockInv (h.ran i r op inp res s) := by
  refine ⟨hstat, hlast, ?_, ?_, ?_⟩
  · intro e he t ht
    rw [Hist.ran, Hist.entries_push_ran, List.mem_append, List.mem_singleton] at he
    rcases he with he | rfl
    · obtain ⟨hlt, huniq⟩ := inv.tokens e he t ht
      refine ⟨by simpa [Hist.ran, htok] using hlt, fun e' he' ht' => ?_⟩
      rw [Hist.ran, Hist.entries_push_ran, List.mem_append, List.mem_singleton] at he'
      rcases he' with he' | rfl
      · exact huniq e' he' ht'
      · rw [hacq] at ht'
        cases ht'
    · rw [hacq] at ht
      cases ht
  · intro hd t hl
    obtain ⟨a, ha, ht⟩ := inv.locked hd t (hlock _ hl)
    refine ⟨a, ?_, ht⟩
    rw [Hist.ran, lastAcquire_ran, hacq]
    simpa using ha
  · intro pre e post he hw
    rcases Hist.split_push he with ⟨post', hold⟩ | ⟨hev, -⟩
    · exact inv.ordered pre e post' hold hw
    · cases hev
      rw [hwrite] at hw
      cases hw

theorem lockInv_acquired {hd : StoreHandle} (inv : LockInv h) :
    LockInv (h.ran i r (.acquire hd) inp (.ok h.shared.tokens)
      { h.shared with lock := some (hd, h.shared.tokens), tokens := h.shared.tokens + 1 }) := by
  refine ⟨inv.stat, inv.lastStat, ?_, ?_, ?_⟩
  · have hnew : ∀ e ∈ h.entries, acquired e ≠ some h.shared.tokens := fun e he ht =>
      absurd (inv.tokens e he _ ht).1 (lt_irrefl _)
    intro e he t ht
    rw [Hist.ran, Hist.entries_push_ran, List.mem_append, List.mem_singleton] at he
    rcases he with he | rfl
    · obtain ⟨hlt, huniq⟩ := inv.tokens e he t ht
      refine ⟨Nat.lt_succ_of_lt hlt, fun e' he' ht' => ?_⟩
      rw [Hist.ran, Hist.entries_push_ran, List.mem_append, List.mem_singleton] at he'
      rcases he' with he' | rfl
      · exact huniq e' he' ht'
      · cases ht'
        exact absurd ht (hnew e he)
    · cases ht
      refine ⟨Nat.lt_succ_self _, fun e' he' ht' => ?_⟩
      rw [Hist.ran, Hist.entries_push_ran, List.mem_append, List.mem_singleton] at he'
      rcases he' with he' | rfl
      · exact absurd ht' (hnew e' he')
      · rfl
  · intro hd' t hl
    cases hl
    exact ⟨_, by rw [Hist.ran, lastAcquire_ran]; rfl, rfl⟩
  · intro pre e post he hw
    rcases Hist.split_push he with ⟨post', hold⟩ | ⟨hev, -⟩
    · exact inv.ordered pre e post' hold hw
    · cases hev
      cases hw

theorem lockInv_renamed {contents : Table String Json} {attempt token : ℕ} (inv : LockInv h)
    (hh : Holding i r token h) :
    LockInv (h.ran i r (.rename contents attempt) inp (.ok ())
      { h.shared with file := some ⟨contents, h.shared.stamps⟩, stamps := h.shared.stamps + 1 }) := by
  refine ⟨?_, ?_, ?_, ?_, ?_⟩
  · intro f hf
    cases hf
    exact Nat.lt_succ_self _
  · exact fun hd st hst => Nat.lt_succ_of_lt (inv.lastStat hd st hst)
  · intro e he t ht
    rw [Hist.ran, Hist.entries_push_ran, List.mem_append, List.mem_singleton] at he
    rcases he with he | rfl
    · obtain ⟨hlt, huniq⟩ := inv.tokens e he t ht
      refine ⟨hlt, fun e' he' ht' => ?_⟩
      rw [Hist.ran, Hist.entries_push_ran, List.mem_append, List.mem_singleton] at he'
      rcases he' with he' | rfl
      · exact huniq e' he' ht'
      · cases ht'
    · cases ht
  · intro hd t hl
    obtain ⟨a, ha, ht⟩ := inv.locked hd t hl
    exact ⟨a, by rw [Hist.ran, lastAcquire_ran]; exact ha, ht⟩
  · intro pre e post he hw
    rcases Hist.split_push he with ⟨post', hold⟩ | ⟨hev, rfl⟩
    · exact inv.ordered pre e post' hold hw
    · cases hev
      exact inv.holder hh

theorem lockInv_ran (inv : LockInv h) (hx : storeExec dateImage op inp h.shared = some (res, s))
    (hp : Locked i r h op) : LockInv (h.ran i r op inp res s) := by
  cases op with
  | acquire hd =>
    simp only [storeExec] at hx
    split at hx
    · cases hx
      exact lockInv_quiet inv rfl rfl inv.stat inv.lastStat rfl fun _ => id
    · split_ifs at hx
      cases hx
      exact lockInv_acquired inv
  | release token =>
    cases hx
    refine lockInv_quiet inv rfl rfl ?_ ?_ ?_ ?_
    · split_ifs <;> exact inv.stat
    · split_ifs <;> exact inv.lastStat
    · split_ifs <;> rfl
    · split_ifs
      · intro l hl
        cases hl
      · exact fun _ => id
  | rename contents attempt =>
    simp only [storeExec] at hx
    split at hx
    · cases hx
      exact lockInv_quiet inv rfl rfl inv.stat inv.lastStat rfl fun _ => id
    · cases hx
      obtain ⟨token, hh⟩ := hp
      exact lockInv_renamed inv hh
  | chmod =>
    cases hx
    refine lockInv_quiet inv rfl rfl ?_ ?_ ?_ ?_
    · split_ifs
      · exact inv.stat
      · intro f hf
        obtain ⟨f', -, rfl⟩ := Option.map_eq_some_iff.mp hf
        exact Nat.lt_succ_self _
    · split_ifs
      · exact inv.lastStat
      · exact fun hd st hst => Nat.lt_succ_of_lt (inv.lastStat hd st hst)
    · split_ifs <;> rfl
    · split_ifs <;> exact fun _ => id
  | store hd u =>
    cases hx
    refine lockInv_quiet inv rfl rfl inv.stat (fun hd' st hst => ?_) rfl fun _ => id
    by_cases hne : hd' = hd
    · subst hne
      rw [store_setStore] at hst
      rcases apply_lastStat (s := h.shared.store hd') u with heq | heq
      · exact inv.lastStat hd' st (heq ▸ hst)
      · exact hp.2.2 st (heq ▸ hst)
    · rw [store_setStore_ne hne] at hst
      exact inv.lastStat hd' st hst
  | _ =>
    cases hx
    exact lockInv_quiet inv rfl rfl inv.stat inv.lastStat rfl fun _ => id

/-- Nobody else changes the lock or the file under its holder. -/
theorem Holding.others (inv : LockInv h)
    (hx : storeExec dateImage op inp h.shared = some (res, s)) (hp : Locked i r h op) {j t : ℕ}
    {d : StoreRequest} (hj : Holding j d t h) (hij : j ≠ i) :
    Holding j d t (h.ran i r op inp res s) ∧ s.file = h.shared.file := by
  have hnot : ∀ t', ¬ Holding i r t' h := fun t' hi => hij (hj.same inv hi)
  suffices hs : s.lock = some (d.handle, t) ∧ s.file = h.shared.file from
    ⟨⟨hj.1.ran, hs.1⟩, hs.2⟩
  cases op with
  | acquire hd =>
    simp only [storeExec] at hx
    split at hx
    · cases hx
      exact ⟨hj.2, rfl⟩
    · rw [if_pos (by rw [hj.2]; rfl)] at hx
      cases hx
  | release token =>
    cases hx
    split_ifs with htok
    · have htoken : t = token := by simpa [hj.2] using htok.2
      exact absurd (inv.owner hj.1 (htoken ▸ hp)) hij
    · exact ⟨hj.2, rfl⟩
  | rename contents attempt => exact absurd hp.choose_spec (hnot _)
  | chmod => exact absurd hp.choose_spec (hnot _)
  | _ =>
    cases hx
    exact ⟨hj.2, rfl⟩

/-- The holder keeps the lock until it releases it. -/
theorem Holding.own (hx : storeExec dateImage op inp h.shared = some (res, s)) {t : ℕ}
    (hh : Holding i r t h) (hop : ∀ token, op ≠ .release token) :
    Holding i r t (h.ran i r op inp res s) := by
  refine ⟨hh.1.ran, ?_⟩
  cases op with
  | acquire hd =>
    simp only [storeExec] at hx
    split at hx
    · cases hx
      exact hh.2
    · rw [if_pos (by rw [hh.2]; rfl)] at hx
      cases hx
  | release token => exact absurd rfl (hop token)
  | rename contents attempt =>
    simp only [storeExec] at hx
    split at hx <;> cases hx <;> exact hh.2
  | chmod =>
    cases hx
    change (if _ then _ else _ : StoreShared).lock = _
    split_ifs <;> exact hh.2
  | _ =>
    cases hx
    exact hh.2

/-- Whoever changes the file, or an instance other than as a reader does, holds the lock. -/
theorem exclusive_or_idle (hx : storeExec dateImage op inp h.shared = some (res, s))
    (hl : Locked i r h op) :
    (∃ t, Holding i r t h) ∨ (∀ hd, s.store hd = h.shared.store hd) ∨ op.idle := by
  cases op with
  | store hd u =>
    cases hu : u.exclusive with
    | true => exact .inl (hl.2.1 hu)
    | false => exact .inr (.inr hu)
  | acquire hd =>
    simp only [storeExec] at hx
    split at hx
    · cases hx
      exact .inr (.inl fun _ => rfl)
    · split_ifs at hx
      cases hx
      exact .inr (.inl fun _ => rfl)
  | release token =>
    cases hx
    refine .inr (.inl fun hd => ?_)
    split_ifs <;> rfl
  | rename contents attempt => exact .inl hl
  | chmod => exact .inl hl
  | _ => exact .inr (.inr trivial)

/-- The file keeps its fingerprint or gets a new one. -/
theorem stamps_ran (hx : storeExec dateImage op inp h.shared = some (res, s)) :
    h.shared.stamps ≤ s.stamps ∧ ∀ f, s.file = some f → h.shared.file = some f ∨
      h.shared.stamps ≤ f.stat := by
  cases op with
  | acquire hd =>
    simp only [storeExec] at hx
    split at hx
    · cases hx
      exact ⟨le_rfl, fun _ => .inl⟩
    · split_ifs at hx
      cases hx
      exact ⟨le_rfl, fun _ => .inl⟩
  | release token =>
    cases hx
    split_ifs <;> exact ⟨le_rfl, fun _ => .inl⟩
  | rename contents attempt =>
    simp only [storeExec] at hx
    split at hx
    · cases hx
      exact ⟨le_rfl, fun _ => .inl⟩
    · cases hx
      refine ⟨Nat.le_succ _, fun f hf => ?_⟩
      cases hf
      exact .inr le_rfl
  | chmod =>
    cases hx
    split_ifs
    · exact ⟨le_rfl, fun _ => .inl⟩
    · refine ⟨Nat.le_succ _, fun f hf => ?_⟩
      obtain ⟨f', -, rfl⟩ := Option.map_eq_some_iff.mp hf
      exact .inr le_rfl
  | _ =>
    cases hx
    exact ⟨le_rfl, fun _ => .inl⟩

end Ran

end Wazir.Shared
