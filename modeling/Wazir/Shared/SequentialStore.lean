import Wazir.Shared.StoreLocking

/-! No lost updates. The file is at all times the sequential application of the writes that went
through, in lock order, as long as no write fails between advancing what its instance keeps
about the file and adopting the map that goes with it. -/

namespace Wazir.Shared

open Wazir.Async

/-! What the store should do. -/

def StoreCall.writes : StoreCall → Bool
  | .get _ => false
  | .list _ => false
  | _ => true

/-- The contents after a call that goes through. -/
def StoreCall.apply (contents : Table String Json) :
    StoreCall → Except StoreError (Table String Json)
  | .update key mutate => (mutate (contents.lookup key)).map (contents.insert key)
  | .put key value => .ok (contents.insert key value)
  | .delete key => .ok (contents.erase key)
  | .clear => .ok ∅
  | .get _ => .ok contents
  | .list _ => .ok contents

/-- The writes that went through, oldest first. -/
def doneWrites (h : StoreHist) : List StoreCall :=
  (h.entries.filter writeDone).map fun e => e.call.call

/-- The property: the file holds the writes that went through, one after the other; they went
through in the order in which the lock was acquired; and they are those of the calls that
returned, one each, and of calls still under way. -/
structure SequentialWrites (initial : Table String Json) (cfg : StoreConfig) : Prop where
  contents : ∃ c, (doneWrites cfg.hist).foldlM StoreCall.apply initial = .ok c ∧
    ∀ key, cfg.hist.shared.contents.lookup key = c.lookup key
  ordered : ∀ pre e post, cfg.hist.events = pre ++ .ran e :: post → writeDone e = true →
    ∃ a, lastAcquire ⟨pre, e.before⟩ = some a ∧ a.thread = e.thread
  exact : ∀ i r out, cfg.threads[i]? = some ⟨r, some (Prog.resume out)⟩ →
    ((cfg.hist.entriesOf i).filter writeDone).length = if r.call.writes && out.isOk then 1 else 0

/-! When a failing write does no harm. -/

/-- The next operation of an instance takes its snapshot for the contents of the file. -/
def JsonFileStore.Trusts (store : JsonFileStore) (file : Option StoredFile) : Prop :=
  store.loaded = true ∧ ∃ f, file = some f ∧ store.lastStat = some f.stat

/-- If so, the snapshot is the file's contents. -/
def Settled (hd : StoreHandle) (s : StoreShared) : Prop :=
  (s.store hd).Trusts s.file → ∀ k, (s.store hd).data.lookup k = s.contents.lookup k

/-- The key a call gives a new value. -/
def StoreCall.sets : StoreCall → Option String
  | .update key _ => some key
  | .put key _ => some key
  | _ => none

/-- A snapshot that is still trusted has no value under the key the call sets. -/
def Unset (r : StoreRequest) (s : StoreShared) : Prop :=
  (s.store r.handle).Trusts s.file →
    ∀ key, r.call.sets = some key → (s.store r.handle).data.lookup key = none

section Conditions

variable (dateImage : String → Json)

/-- Every value prints as it did before its date strings became dates. -/
def KeepsDates (data : Table String Json) : Prop :=
  ∀ k v, data.lookup k = some v → reviveDates dateImage v = v

/-- The mutation of the call throws on what `data` holds. -/
def StoreCall.Throws (data : Table String Json) (call : StoreCall) : Prop :=
  ∃ key mutate x, call = .update key mutate ∧
    mutate ((data.lookup key).map (reviveDates dateImage)) = .error x

/-- The condition on a command: where it makes a write fail, the instance's snapshot is still
the file's contents, and it has no value under a key whose new text is already cached; and no
date string is written that `Date` would print differently. -/
def FailsHarmlessly (e : StoreEntry) : Prop :=
  match e.op, e.res with
  | .tmp .dir, .error _ => Settled e.call.handle e.before
  | .tmp _, .error _ => Settled e.call.handle e.before ∧ Unset e.call e.before
  | .rename _ attempt, .error x =>
    JsonFileStore.renamesAgain attempt x = false →
      Settled e.call.handle e.before ∧ Unset e.call e.before
  | .store hd (.read _ parsed false), store =>
    e.call.call.Throws dateImage parsed → store.loaded = true →
      ∀ k, (e.before.store hd).data.lookup k = parsed.lookup k
  | .store _ (.serialize data _), _ => KeepsDates dateImage data
  | _, _ => True

end Conditions

/-! The invariant. -/

/-- What an instance takes for the file's contents is that, and so are the texts it caches. -/
def JsonFileStore.Coherent (s : StoreShared) (store : JsonFileStore) : Prop :=
  store.Trusts s.file → (∀ k, store.data.lookup k = s.contents.lookup k) ∧
    ∀ k v w, store.rawJsonByKey.lookup k = some v → store.data.lookup k = some w → v = w

def Coherent (hd : StoreHandle) (s : StoreShared) : Prop := (s.store hd).Coherent s

structure StoreInv (dateImage : String → Json) (initial : Table String Json) (h : StoreHist) :
    Prop where
  lock : LockInv h
  coherent : ∀ hd, hd.process ∉ h.dead → Coherent hd h.shared ∨ ∃ t, h.shared.lock = some (hd, t)
  dates : KeepsDates dateImage h.shared.contents
  contents : ∃ c, (doneWrites h).foldlM StoreCall.apply initial = .ok c ∧
    ∀ key, h.shared.contents.lookup key = c.lookup key

theorem apply_congr {a b c : Table String Json} {call : StoreCall}
    (hab : ∀ k, a.lookup k = b.lookup k) (h : call.apply a = .ok c) :
    ∃ c', call.apply b = .ok c' ∧ ∀ k, c.lookup k = c'.lookup k := by
  have insert_congr : ∀ key (v : Json) k, (a.insert key v).lookup k = (b.insert key v).lookup k := by
    intro key v k
    by_cases hk : k = key
    · subst hk
      rw [AList.lookup_insert, AList.lookup_insert]
    · rw [AList.lookup_insert_ne hk, AList.lookup_insert_ne hk, hab k]
  cases call with
  | update key mutate =>
    simp only [StoreCall.apply, except_map_eq_ok] at h
    obtain ⟨v, hv, rfl⟩ := h
    refine ⟨b.insert key v, ?_, insert_congr key v⟩
    simp only [StoreCall.apply, ← hab, hv, Except.map]
  | put key value =>
    cases h
    exact ⟨_, rfl, insert_congr key value⟩
  | delete key =>
    cases h
    refine ⟨_, rfl, fun k => ?_⟩
    by_cases hk : k = key
    · subst hk
      rw [AList.lookup_erase, AList.lookup_erase]
    · rw [AList.lookup_erase_ne hk, AList.lookup_erase_ne hk, hab k]
  | clear =>
    cases h
    exact ⟨_, rfl, fun _ => rfl⟩
  | _ =>
    cases h
    exact ⟨_, rfl, hab⟩

theorem doneWrites_ran (h : StoreHist) (e : StoreEntry) (s : StoreShared) :
    doneWrites (h.push (.ran e) s) = doneWrites h ++ if writeDone e then [e.call.call] else [] := by
  simp only [doneWrites, Hist.entries_push_ran, List.filter_append, List.filter_cons,
    List.filter_nil, List.map_append]
  split_ifs <;> simp

variable {s : StoreShared}

/-- An instance that does not know the file's new fingerprint reads the file first. -/
theorem JsonFileStore.Coherent.of_stale {store : JsonFileStore}
    (h : ∀ f, s.file = some f → store.lastStat ≠ some f.stat) : store.Coherent s := by
  rintro ⟨-, f, hf, hst⟩
  exact absurd hst (h f hf)

theorem JsonFileStore.Coherent.same {s s' : StoreShared} {store store' : JsonFileStore}
    (h : store.Coherent s) (hfile : s'.file = s.file) (hloaded : store'.loaded = store.loaded)
    (hstat : store'.lastStat = store.lastStat)
    (hdata : store.Trusts s.file → ∀ k, store'.data.lookup k = store.data.lookup k)
    (hraw : store'.rawJsonByKey = store.rawJsonByKey) : store'.Coherent s' := by
  rintro ⟨hl, f, hf, hst⟩
  have ht : store.Trusts s.file := ⟨hloaded ▸ hl, f, hfile ▸ hf, hstat ▸ hst⟩
  obtain ⟨hsame, htexts⟩ := h ht
  refine ⟨fun k => ?_, fun k v w hv hw => htexts k v w (hraw ▸ hv) (hdata ht k ▸ hw)⟩
  rw [hdata ht k, hsame k]
  unfold StoreShared.contents
  rw [hfile]

variable {data : Table String Json}

theorem lookup_insert_same {key : String} {v : Json} (h : data.lookup key = some v) (k : String) :
    (data.insert key v).lookup k = data.lookup k := by
  by_cases hk : k = key
  · subst hk
    rw [AList.lookup_insert, h]
  · exact AList.lookup_insert_ne hk

variable {dateImage : String → Json}

theorem reviveShared_eq {v : Json} (h : reviveDates dateImage v = v) :
    reviveShared dateImage v = v := by
  cases v with
  | str s => rfl
  | _ => exact h

variable {u : StoreUpdate}

section Updates

variable {dateImage : String → Json} {s : StoreShared} {store : JsonFileStore}

/-- Reviving dates changes nothing that the file holds. -/
theorem coherent_revived (hd : KeepsDates dateImage s.contents) (key : String)
    (h : store.Coherent s) : (store.ensureKeyRevived dateImage key).Coherent s := by
  unfold JsonFileStore.ensureKeyRevived
  split
  · exact h
  · rename_i v hv
    split_ifs
    · exact h
    · refine h.same rfl rfl rfl (fun ht k => ?_) rfl
      have hkept : reviveDates dateImage v = v := hd key v ((h ht).1 key ▸ hv)
      rw [hkept]
      exact lookup_insert_same hv k

/-- A reader leaves an instance coherent that was so. -/
theorem coherent_update (hd : KeepsDates dateImage s.contents) (hu : u.exclusive = false)
    (hread : ∀ st parsed, u = .read (some st) parsed true → ∀ f, s.file = some f → f.stat = st →
      ∀ k, parsed.lookup k = f.contents.lookup k) (h : store.Coherent s) :
    (u.apply dateImage store).Coherent s := by
  cases u with
  | look => exact h
  | noFile adopt =>
    refine .of_stale fun f _ => ?_
    cases adopt <;> simp [StoreUpdate.apply, JsonFileStore.forget]
  | read st parsed adopt =>
    cases adopt with
    | false => cases hu
    | true =>
      rintro ⟨-, f, hf, hst⟩
      refine ⟨fun k => ?_, fun k v w hv => ?_⟩
      · rw [contents_some hf]
        exact hread f.stat parsed (by rw [← show st = some f.stat from hst]) f hf rfl k
      · cases hv
  | readFailed => exact .of_stale fun _ _ => by simp [StoreUpdate.apply]
  | reviveKey key => exact coherent_revived hd key h
  | reviveAll head => exact foldl_ensureKeyRevived (fun _ key h => coherent_revived hd key h) _ h
  | updating key shared =>
    simp only [StoreUpdate.apply]
    split
    · rename_i v hv
      split_ifs
      · refine h.same rfl rfl rfl (fun ht k => ?_) rfl
        rw [reviveShared_eq (hd key v ((h ht).1 key ▸ hv))]
        exact lookup_insert_same hv k
      · exact h
    · exact h
  | addRevived key => exact h.same rfl rfl rfl (fun _ _ => rfl) rfl
  | dropRevived key => exact h.same rfl rfl rfl (fun _ _ => rfl) rfl
  | clearRevived => exact h.same rfl rfl rfl (fun _ _ => rfl) rfl
  | renamed => exact h.same rfl rfl rfl (fun _ _ => rfl) rfl
  | _ => cases hu

/-- A reader keeps the cached texts or drops them. -/
theorem raw_update (hu : u.exclusive = false) :
    (u.apply dateImage store).rawJsonByKey = store.rawJsonByKey ∨
      (u.apply dateImage store).rawJsonByKey = ∅ := by
  have revived : ∀ (t : JsonFileStore) key,
      (t.ensureKeyRevived dateImage key).rawJsonByKey = t.rawJsonByKey := fun t key => by
    unfold JsonFileStore.ensureKeyRevived
    split
    · rfl
    · split_ifs <;> rfl
  cases u with
  | noFile adopt => cases adopt <;> exact .inr rfl
  | read st parsed adopt =>
    cases adopt with
    | false => cases hu
    | true => exact .inr rfl
  | reviveKey key => exact .inl (revived store key)
  | reviveAll head =>
    exact .inl (foldl_ensureKeyRevived (P := fun t => t.rawJsonByKey = store.rawJsonByKey)
      (fun _ key h => (revived _ key).trans h) _ rfl)
  | updating key shared =>
    left
    simp only [StoreUpdate.apply]
    split
    · split_ifs <;> rfl
    · rfl
  | serialize data mutatedKey => cases hu
  | _ => exact .inl rfl

end Updates

/-- What others may do to the instance of a thread that holds the lock. -/
def Kept (hd : StoreHandle) (s s' : StoreShared) : Prop :=
  s'.file = s.file ∧ ((s'.store hd).rawJsonByKey = (s.store hd).rawJsonByKey ∨
    (s'.store hd).rawJsonByKey = ∅) ∧ (Coherent hd s → Coherent hd s')

section Contract

variable (dateImage : String → Json) (initial : Table String Json)

def storeContract : Contract StoreOp StoreRes StoreRequest ℕ StoreInput StoreShared where
  Ok h := h.Always fun _ e => FailsHarmlessly dateImage e
  Inv := StoreInv dateImage initial
  Rely i r h h' := (r.handle.process ∉ h.dead → r.handle.process ∉ h'.dead) ∧
    h.shared.stamps ≤ h'.shared.stamps ∧
    (∀ f, h'.shared.file = some f → h.shared.file = some f ∨ h.shared.stamps ≤ f.stat) ∧
    ∀ t, Holding i r t h → Holding i r t h' ∧ Kept r.handle h.shared h'.shared

end Contract

/-- What a thread must know for its next command. -/
def SeqPrepared (dateImage : String → Json) (i : ℕ) (r : StoreRequest) (h : StoreHist) :
    StoreOp → Prop
  | .release token => Holding i r token h ∧ Coherent r.handle h.shared
  | .rename contents _ => ∃ c, r.call.apply h.shared.contents = .ok c ∧
    (∀ k, contents.lookup k = c.lookup k) ∧ KeepsDates dateImage contents
  | .store _ (.read (some st) parsed true) => ∀ f, h.shared.file = some f → f.stat = st →
    ∀ k, parsed.lookup k = f.contents.lookup k
  | _ => True

variable {hd : StoreHandle}

section Ran

variable {dateImage : String → Json} {initial : Table String Json} {h : StoreHist} {i : ℕ}
  {r : StoreRequest} {op : StoreOp} {inp : StoreInput} {res : StoreRes op} {s : StoreShared}

/-- A command that leaves the contents alone. -/
theorem storeInv_quiet (inv : StoreInv dateImage initial h) (lock : LockInv (h.ran i r op inp res s))
    (hwrite : writeDone ⟨i, r, op, inp, res, h.shared, s⟩ = false)
    (hcontents : s.contents = h.shared.contents)
    (hcoh : ∀ hd, hd.process ∉ h.dead → Coherent hd s ∨ ∃ t, s.lock = some (hd, t)) :
    StoreInv dateImage initial (h.ran i r op inp res s) := by
  refine ⟨lock, ?_, ?_, ?_⟩
  · simpa [Hist.ran] using hcoh
  · simpa [Hist.ran, hcontents] using inv.dates
  · simpa [Hist.ran, doneWrites_ran, hwrite, hcontents] using inv.contents

theorem storeInv_renamed {contents c : Table String Json} {attempt token : ℕ}
    (inv : StoreInv dateImage initial h) (hh : Holding i r token h)
    (happly : r.call.apply h.shared.contents = .ok c)
    (hsame : ∀ k, contents.lookup k = c.lookup k) (hdates : KeepsDates dateImage contents) :
    StoreInv dateImage initial (h.ran i r (.rename contents attempt) inp (.ok ())
      { h.shared with file := some ⟨contents, h.shared.stamps⟩, stamps := h.shared.stamps + 1 }) := by
  refine ⟨lockInv_renamed inv.lock hh, fun hd _ => .inl (.of_stale fun f hf hst => ?_), hdates, ?_⟩
  · cases hf
    exact absurd (inv.lock.lastStat hd _ hst) (lt_irrefl _)
  · obtain ⟨c₀, hc₀, hlook⟩ := inv.contents
    obtain ⟨c', hc', hcc⟩ := apply_congr hlook happly
    refine ⟨c', ?_, fun k => (hsame k).trans (hcc k)⟩
    rw [Hist.ran, doneWrites_ran, List.foldlM_append, hc₀]
    simp only [writeDone, if_true, List.foldlM_cons, List.foldlM_nil, except_bind_eq_ok]
    exact ⟨c₀, rfl, c', hc', rfl⟩

theorem storeInv_ran (inv : StoreInv dateImage initial h)
    (hx : storeExec dateImage op inp h.shared = some (res, s)) (hl : Locked i r h op)
    (hp : SeqPrepared dateImage i r h op) : StoreInv dateImage initial (h.ran i r op inp res s) := by
  have lock := lockInv_ran inv.lock hx hl
  cases op with
  | acquire hd =>
    simp only [storeExec] at hx
    split at hx
    · cases hx
      exact storeInv_quiet inv lock rfl rfl inv.coherent
    · split_ifs at hx with hfree
      cases hx
      refine storeInv_quiet inv lock rfl rfl fun hd' alive => .inl ?_
      rcases inv.coherent hd' alive with hcoh | ⟨t, ht⟩
      · exact hcoh
      · simp [ht] at hfree
  | release token =>
    cases hx
    obtain ⟨hh, hcoh⟩ := hp
    split_ifs at lock ⊢
    · refine storeInv_quiet inv lock rfl rfl fun hd' alive => .inl ?_
      rcases inv.coherent hd' alive with hcoh' | ⟨t, ht⟩
      · exact hcoh'
      · cases ht.symm.trans hh.2
        exact hcoh
    · exact storeInv_quiet inv lock rfl rfl inv.coherent
  | rename contents attempt =>
    simp only [storeExec] at hx
    split at hx
    · cases hx
      exact storeInv_quiet inv lock rfl rfl inv.coherent
    · cases hx
      obtain ⟨token, hh⟩ := hl
      obtain ⟨c, happly, hsame, hdates⟩ := hp
      exact storeInv_renamed inv hh happly hsame hdates
  | chmod =>
    cases hx
    split_ifs at lock ⊢
    · exact storeInv_quiet inv lock rfl rfl inv.coherent
    · refine storeInv_quiet inv lock rfl ?_ fun hd alive => .inl (.of_stale fun f hf hst => ?_)
      · cases hf : h.shared.file <;> simp [StoreShared.contents, hf]
      · obtain ⟨f', -, rfl⟩ := Option.map_eq_some_iff.mp hf
        exact absurd (inv.lock.lastStat hd _ hst) (lt_irrefl _)
  | store hd u =>
    cases hx
    obtain ⟨rfl, hexcl, -⟩ := hl
    refine storeInv_quiet inv lock rfl rfl fun hd' alive => ?_
    rcases inv.coherent hd' alive with hcoh | ht
    · by_cases hne : hd' = r.handle
      · subst hne
        cases hu : u.exclusive with
        | true =>
          obtain ⟨t, ht⟩ := hexcl hu
          exact .inr ⟨t, ht.2⟩
        | false =>
          left
          unfold Coherent
          rw [store_setStore]
          refine JsonFileStore.Coherent.same (coherent_update inv.dates hu ?_ hcoh) rfl rfl rfl
            (fun _ _ => rfl) rfl
          rintro st parsed rfl
          exact hp
      · left
        unfold Coherent
        rw [store_setStore_ne hne]
        exact JsonFileStore.Coherent.same hcoh rfl rfl rfl (fun _ _ => rfl) rfl
    · exact .inr ht
  | _ =>
    cases hx
    exact storeInv_quiet inv lock rfl rfl inv.coherent

theorem Kept.same {s s' : StoreShared} (hfile : s'.file = s.file)
    (hstore : s'.store hd = s.store hd) : Kept hd s s' :=
  ⟨hfile, .inl (by rw [hstore]), fun hc => JsonFileStore.Coherent.same hc hfile (by rw [hstore])
    (by rw [hstore]) (fun _ _ => by rw [hstore]) (by rw [hstore])⟩

theorem kept_of_idle (inv : StoreInv dateImage initial h)
    (hx : storeExec dateImage op inp h.shared = some (res, s))
    (hp : SeqPrepared dateImage i r h op) (hop : op.idle) (hd : StoreHandle) :
    Kept hd h.shared s := by
  cases op with
  | store hd' u =>
    cases hx
    by_cases hne : hd = hd'
    · subst hne
      unfold Kept Coherent
      rw [store_setStore]
      refine ⟨rfl, raw_update hop, fun hc => ?_⟩
      refine JsonFileStore.Coherent.same (coherent_update inv.dates hop ?_ hc) rfl rfl rfl
        (fun _ _ => rfl) rfl
      rintro st parsed rfl
      exact hp
    · exact .same rfl (store_setStore_ne hne)
  | acquire hd => exact hop.elim
  | release token => exact hop.elim
  | rename contents attempt => exact hop.elim
  | chmod => exact hop.elim
  | _ =>
    cases hx
    exact .same rfl rfl

theorem storeRely_ran (inv : StoreInv dateImage initial h)
    (hx : storeExec dateImage op inp h.shared = some (res, s)) (hl : Locked i r h op)
    (hp : SeqPrepared dateImage i r h op) {j : ℕ} {d : StoreRequest} (hij : j ≠ i) :
    (storeContract dateImage initial).Rely j d h (h.ran i r op inp res s) := by
  obtain ⟨hstamps, hfile⟩ := stamps_ran hx
  refine ⟨fun alive => by simpa [Hist.ran] using alive, hstamps, hfile, fun t hj => ?_⟩
  obtain ⟨hkept, hsame⟩ := hj.others inv.lock hx hl hij
  refine ⟨hkept, ?_⟩
  rcases exclusive_or_idle hx hl with ⟨t', hi⟩ | hstore | hop
  · exact absurd (hj.same inv.lock hi) hij
  · exact .same hsame (hstore _)
  · exact kept_of_idle inv hx hp hop _

end Ran

/-! The procedures. -/

variable {h : StoreHist} {mutate : Bool → Table String Json → StoreProg (Table String Json)}
  {r : StoreRequest} {mutatedKey : String} {P : StoreShared → Prop} {inp : StoreInput}
  {st : Option ℕ} {op : StoreOp}

section Safety

variable {dateImage : String → Json} {initial : Table String Json} {α : Type} {i : ℕ}
  {r : StoreRequest} {Q : Except StoreError α → StoreHist → Prop}

variable (dateImage initial i r) in
abbrev StoreSafe (Q : Except StoreError α → StoreHist → Prop) (p : StoreProg α) (h : StoreHist) : Prop :=
  Safe (storeSystem dateImage) (storeContract dateImage initial) i r Q p h

theorem store_call {A : StoreHist → Prop} {next : StoreRes op → StoreProg α}
    (stable : Stable (storeContract dateImage initial) i r A) (locked : ∀ h, A h → Locked i r h op)
    (prepared : ∀ h, A h → SeqPrepared dateImage i r h op)
    (rest : ∀ h inp res s, A h → StoreInv dateImage initial h →
      storeExec dateImage op inp h.shared = some (res, s) →
      FailsHarmlessly dateImage ⟨i, r, op, inp, res, h.shared, s⟩ →
      StoreSafe dateImage initial i r Q (next res) (h.ran i r op inp res s)) (ha : A h) :
    StoreSafe dateImage initial i r Q (.call op next) h := by
  intro h' inp res s hrely hinv hx hok
  have ha' := stable h h' hrely ha
  have halways : (h'.ran i r op inp res s).Always fun _ e => FailsHarmlessly dateImage e := hok
  exact ⟨storeInv_ran hinv hx (locked h' ha') (prepared h' ha'),
    fun j d hij => storeRely_ran hinv hx (locked h' ha') (prepared h' ha') hij,
    rest h' inp res s ha' hinv hx (halways.last rfl)⟩

/-- The thread holds the lock, and the state is as `P` says. -/
def Held (i : ℕ) (r : StoreRequest) (t : ℕ) (P : StoreShared → Prop) (h : StoreHist) : Prop :=
  Holding i r t h ∧ P h.shared

def Keeps (hd : StoreHandle) (P : StoreShared → Prop) : Prop := ∀ s s', Kept hd s s' → P s → P s'

theorem Held.stable {t : ℕ} (keeps : Keeps r.handle P) :
    Stable (storeContract dateImage initial) i r (Held i r t P) := by
  rintro h h' ⟨-, -, -, hlock⟩ ⟨hh, hp⟩
  obtain ⟨hh', hkept⟩ := hlock t hh
  exact ⟨hh', keeps _ _ hkept hp⟩

theorem Held.idle {t : ℕ} {res : StoreRes op} (keeps : Keeps r.handle P) (ha : Held i r t P h)
    (inv : StoreInv dateImage initial h) (hx : storeExec dateImage op inp h.shared = some (res, s))
    (hp : SeqPrepared dateImage i r h op) (hop : op.idle) :
    Held i r t P (h.ran i r op inp res s) := by
  refine ⟨ha.1.own hx ?_, keeps _ _ (kept_of_idle inv hx hp hop r.handle) ha.2⟩
  rintro token rfl
  exact hop

/-! What holds at the points of a write. -/

/-- The texts cached under the keys of a map are those of its values. -/
def Texts (hd : StoreHandle) (data : Table String Json) (s : StoreShared) : Prop :=
  ∀ k v w, (s.store hd).rawJsonByKey.lookup k = some v → data.lookup k = some w → v = w

/-- The file has the fingerprint `st`, and no instance is ahead of it. -/
def Statted (hd : StoreHandle) (st : Option ℕ) (s : StoreShared) : Prop :=
  Coherent hd s ∧ s.file.map StoredFile.stat = st

/-- The map to be changed is in hand. -/
def Copied (dateImage : String → Json) (r : StoreRequest) (data : Table String Json)
    (s : StoreShared) : Prop :=
  (∀ k, data.lookup k = s.contents.lookup k) ∧ Texts r.handle data s ∧
    (r.call.Throws dateImage data → Coherent r.handle s)

/-- The map is changed. -/
def Mutated (r : StoreRequest) (new : Table String Json) (s : StoreShared) : Prop :=
  (∃ c, r.call.apply s.contents = .ok c ∧ ∀ k, new.lookup k = c.lookup k) ∧
    Texts r.handle s.contents s

/-- Its text is made. -/
def Serialized (dateImage : String → Json) (r : StoreRequest) (new text : Table String Json)
    (s : StoreShared) : Prop :=
  (∃ c, r.call.apply s.contents = .ok c ∧ ∀ k, new.lookup k = c.lookup k) ∧
    (∀ k, text.lookup k = new.lookup k) ∧ KeepsDates dateImage text ∧
    ∀ k v, (s.store r.handle).rawJsonByKey.lookup k = some v → new.lookup k = some v

/-- The file is replaced. -/
def Renamed (hd : StoreHandle) (new : Table String Json) (s : StoreShared) : Prop :=
  (∀ k, new.lookup k = s.contents.lookup k) ∧
    ∀ k v, (s.store hd).rawJsonByKey.lookup k = some v → new.lookup k = some v

section Keeps

variable {hd : StoreHandle} {s s' : StoreShared}

theorem Kept.contents (h : Kept hd s s') : s'.contents = s.contents := by
  unfold StoreShared.contents
  rw [h.1]

theorem Kept.raw (h : Kept hd s s') {k : String} {v : Json}
    (hv : (s'.store hd).rawJsonByKey.lookup k = some v) :
    (s.store hd).rawJsonByKey.lookup k = some v := by
  rcases h.2.1 with hr | hr
  · rwa [hr] at hv
  · rw [hr] at hv
    cases hv

theorem keeps_coherent : Keeps hd (Coherent hd) := fun _ _ h => h.2.2

theorem keeps_statted : Keeps hd (Statted hd st) := fun _ _ h hp =>
  ⟨h.2.2 hp.1, by rw [h.1]; exact hp.2⟩

theorem keeps_copied :
    Keeps r.handle (Copied dateImage r data) := fun _ _ h hp =>
  ⟨fun k => by rw [h.contents]; exact hp.1 k, fun k v w hv hw => hp.2.1 k v w (h.raw hv) hw,
    fun ht => h.2.2 (hp.2.2 ht)⟩

theorem keeps_mutated {new : Table String Json} :
    Keeps r.handle (Mutated r new) := fun _ _ h hp =>
  ⟨by rw [h.contents]; exact hp.1, fun k v w hv hw => hp.2 k v w (h.raw hv) (h.contents ▸ hw)⟩

theorem keeps_serialized {new text : Table String Json} :
    Keeps r.handle (Serialized dateImage r new text) := fun _ _ h hp =>
  ⟨by rw [h.contents]; exact hp.1, hp.2.1, hp.2.2.1, fun k v hv => hp.2.2.2 k v (h.raw hv)⟩

theorem keeps_renamed {new : Table String Json} : Keeps hd (Renamed hd new) := fun _ _ h hp =>
  ⟨fun k => by rw [h.contents]; exact hp.1 k, fun k v hv => hp.2 k v (h.raw hv)⟩

end Keeps

/-- A call changes the value of its own key only. -/
theorem apply_other {a c : Table String Json} {call : StoreCall} (h : call.apply a = .ok c)
    {k : String} {v : Json} (hk : call.sets ≠ some k) (hv : c.lookup k = some v) :
    a.lookup k = some v := by
  cases call with
  | update key mutate =>
    simp only [StoreCall.apply, except_map_eq_ok] at h
    obtain ⟨w, -, rfl⟩ := h
    rwa [AList.lookup_insert_ne fun hkk => hk (by rw [hkk]; rfl)] at hv
  | put key value =>
    cases h
    rwa [AList.lookup_insert_ne fun hkk => hk (by rw [hkk]; rfl)] at hv
  | delete key =>
    cases h
    by_cases hkk : k = key
    · subst hkk
      rw [AList.lookup_erase] at hv
      cases hv
    · rwa [AList.lookup_erase_ne hkk] at hv
  | clear =>
    cases h
    cases hv
  | _ =>
    cases h
    exact hv

/-- A write that fails before its text is made leaves its instance coherent. -/
theorem coherent_of_settled (hs : Settled hd s) (ht : Texts hd s.contents s) :
    Coherent hd s := fun htrust =>
  ⟨hs htrust, fun k v w hv hw => ht k v w hv (hs htrust k ▸ hw)⟩

/-- So does one that fails later, if its key is new. -/
theorem coherent_of_unset {new text : Table String Json} (hp : Serialized dateImage r new text s)
    (hs : Settled r.handle s) (hu : Unset r s) :
    Coherent r.handle s := by
  obtain ⟨⟨c, happly, hsame⟩, -, -, hraw⟩ := hp
  refine fun htrust => ⟨hs htrust, fun k v w hv hw => ?_⟩
  have hnew : c.lookup k = some v := (hsame k) ▸ hraw k v hv
  have hold : s.contents.lookup k = some w := (hs htrust k) ▸ hw
  have hk : r.call.sets ≠ some k := fun hk => by
    have := hu htrust k hk
    rw [hw] at this
    cases this
  exact Option.some.inj ((apply_other happly hk hnew).symm.trans hold)

/-- No fingerprint seen is above those given out. -/
def Below (st : Option ℕ) (h : StoreHist) : Prop := ∀ n, st = some n → n < h.shared.stamps

theorem below_stable :
    Stable (storeContract dateImage initial) i r (Below st) :=
  fun _ _ hr hb n hn => lt_of_lt_of_le (hb n hn) hr.2.1

theorem Below.ran {res : StoreRes op} (hb : Below st h)
    (hx : storeExec dateImage op inp h.shared = some (res, s)) : Below st (h.ran i r op inp res s) :=
  fun n hn => lt_of_lt_of_le (hb n hn) (stamps_ran hx).1

theorem below_stat (inv : LockInv h) :
    Below (h.shared.file.map StoredFile.stat) h := by
  intro n hn
  obtain ⟨f, hf, rfl⟩ := Option.map_eq_some_iff.mp hn
  exact inv.stat f hf

/-! Inside the lock. -/

section Writer

variable {t : ℕ} {P : StoreShared → Prop}

/-- The outcome of a step inside the lock: a failure leaves the instance coherent. -/
def Outcome (i : ℕ) (r : StoreRequest) (t : ℕ) (Q : α → StoreHist → Prop) :
    Except StoreError α → StoreHist → Prop
  | .ok a, h => Q a h
  | .error _, h => Held i r t (Coherent r.handle) h

theorem currentStat_held (keeps : Keeps r.handle P) (ha : Held i r t P h) :
    StoreSafe dateImage initial i r
      (fun out h => match out with
        | .ok st => Held i r t (fun s => P s ∧ s.file.map StoredFile.stat = st) h ∧ Below st h
        | .error _ => Held i r t P h)
      (JsonFileStore.currentStat r.handle) h := by
  have keeps' : ∀ st, Keeps r.handle fun s => P s ∧ s.file.map StoredFile.stat = st :=
    fun st s s' hk hp => ⟨keeps s s' hk hp.1, by rw [hk.1]; exact hp.2⟩
  refine store_call (Held.stable keeps) (fun _ _ => trivial) (fun _ _ => trivial)
    (fun h inp res s ha inv hx _ => ?_) ha
  have ha' := ha.idle keeps inv hx trivial trivial
  cases res with
  | error e => exact ha'
  | ok st =>
    obtain ⟨hst, hs⟩ : guarded inp.fault (h.shared.file.map StoredFile.stat) = .ok st ∧
        h.shared = s := by simpa [storeExec] using hx
    have hstat := guarded_ok hst
    subst hs
    have hb := (hstat ▸ below_stat inv.lock : Below st h).ran (i := i) (r := r) hx
    cases st with
    | some st => exact ⟨⟨ha'.1, ha'.2, hstat⟩, hb⟩
    | none =>
      refine store_call ((Held.stable (keeps' none)).and below_stable)
        (fun _ _ => ⟨rfl, by simp [StoreUpdate.exclusive], by simp [StoreUpdate.stat]⟩)
        (fun _ _ => trivial) (fun h inp res s ha inv hx _ => ?_) ⟨⟨ha'.1, ha'.2, hstat⟩, hb⟩
      have hb' := ha.1.idle (keeps' none) inv hx trivial rfl
      split_ifs
      · exact ⟨hb'.1, hb'.2.1⟩
      · exact ⟨hb', ha.2.ran hx⟩

/-- A failed read drops the fingerprint. -/
theorem readFailed_held {e : StoreError} {Q : α → StoreHist → Prop}
    (ha : Held i r t (Coherent r.handle) h) :
    StoreSafe dateImage initial i r (Outcome i r t Q)
      ((JsonFileStore.touch r.handle .readFailed).bind fun _ => .raise e) h :=
  store_call (Held.stable keeps_coherent)
    (fun _ _ => ⟨rfl, by simp [StoreUpdate.exclusive], by simp [StoreUpdate.stat]⟩)
    (fun _ _ => trivial)
    (fun _ _ _ _ ha inv hx _ => ha.idle keeps_coherent inv hx trivial rfl) ha

/-- Without a file the map is empty. -/
theorem noFile_held (ha : Held i r t (Statted r.handle none) h) :
    StoreSafe dateImage initial i r (Outcome i r t fun data => Held i r t (Copied dateImage r data))
      ((JsonFileStore.touch r.handle (.noFile false)).bind fun _ => .ret ∅) h := by
  refine store_call (Held.stable keeps_statted)
    (fun _ _ => ⟨rfl, by simp [StoreUpdate.exclusive], by simp [StoreUpdate.stat]⟩)
    (fun _ _ => trivial) (fun h _ _ _ ha inv hx _ => ?_) ha
  have ha' := ha.idle keeps_statted inv hx trivial rfl
  cases hx
  refine ⟨ha'.1, fun k => ?_, fun k v w hv => ?_, fun _ => ha'.2.1⟩
  · have hnone : h.shared.file = none := Option.map_eq_none_iff.mp ha.2.2
    simp [Hist.ran, StoreShared.contents, hnone]
  · simp only [Hist.ran, Hist.push_shared, store_setStore] at hv
    cases hv

/-- What was read under the lock is the file's contents. -/
theorem read_held {n : ℕ} (ha : Held i r t (Statted r.handle (some n)) h) (hb : Below (some n) h) :
    StoreSafe dateImage initial i r (Outcome i r t fun data => Held i r t (Copied dateImage r data))
      (JsonFileStore.readFromDisk r.handle (some n) false) h := by
  refine store_call ((Held.stable keeps_statted).and below_stable) (fun _ _ => trivial)
    (fun _ _ => trivial) (fun h inp res s ha inv hx _ => ?_) ⟨ha, hb⟩
  have ha' := ha.1.idle keeps_statted inv hx trivial trivial
  have hb' := ha.2.ran (i := i) (r := r) hx
  cases res with
  | error e => exact readFailed_held ⟨ha'.1, ha'.2.1⟩
  | ok parsed =>
    obtain ⟨hparsed, rfl⟩ : guarded inp.fault (h.shared.file.map StoredFile.contents) = .ok parsed ∧
        h.shared = s := by simpa [storeExec] using hx
    obtain ⟨f, hf, -⟩ := Option.map_eq_some_iff.mp ha.1.2.2
    have hparsed := guarded_ok hparsed
    rw [hf] at hparsed
    subst hparsed
    have keeps : Keeps r.handle fun s => Statted r.handle (some n) s ∧ s.contents = f.contents :=
      fun s s' hk hp => ⟨keeps_statted s s' hk hp.1, hk.contents.trans hp.2⟩
    refine store_call ((Held.stable keeps).and below_stable)
      (fun h ha => ⟨rfl, fun _ => ⟨t, ha.1.1⟩, ha.2⟩) (fun _ _ => trivial)
      (fun h inp res s ha inv hx hfail => ?_) ⟨⟨ha'.1, ha'.2, contents_some hf⟩, hb'⟩
    have hown := ha.1.1.own hx (by simp)
    have hsame := ha.1.2.2
    cases hx
    refine ⟨hown, fun k => ?_, fun k v w hv => ?_, fun hthrow htrust => ?_⟩
    · simp [Hist.ran, hsame]
    · simp only [Hist.ran, Hist.push_shared, store_setStore] at hv
      cases hv
    · simp only [Hist.ran, Hist.push_shared, store_setStore] at htrust ⊢
      refine ⟨fun k => ?_, fun k v w hv => by cases hv⟩
      rw [setStore_contents, hsame]
      exact hfail hthrow htrust.1 k

theorem readFromDisk_held (ha : Held i r t (Statted r.handle st) h) (hb : Below st h) :
    StoreSafe dateImage initial i r (Outcome i r t fun data => Held i r t (Copied dateImage r data))
      (JsonFileStore.readFromDisk r.handle st false) h := by
  cases st with
  | some n => exact read_held ha hb
  | none =>
    have hc : Held i r t (Coherent r.handle) h := ⟨ha.1, ha.2.1⟩
    refine Safe.bind (R := Outcome i r t fun st h => Held i r t (Statted r.handle st) h ∧ Below st h)
      ((currentStat_held keeps_coherent hc).settle fun out h hout => ?_) (fun st h hst => ?_)
      fun _ _ he => he
    · cases out with
      | ok st => exact hout
      | error e => exact readFailed_held hout
    · cases st with
      | none => exact noFile_held hst.1
      | some n => exact read_held hst.1 hst.2

/-- The map in hand is changed as the call says. -/
theorem Copied.mutated {data new : Table String Json} (hp : Copied dateImage r data s)
    (happly : r.call.apply data = .ok new) :
    Mutated r new s :=
  ⟨apply_congr hp.1 happly, fun k v w hv hw => hp.2.1 k v w hv ((hp.1 k).trans hw)⟩

/-- `put`, `delete` and `clear` note the key and change the map. -/
theorem edit_held {data new : Table String Json} (hu : u.exclusive = false) (hstat : u.stat = none)
    (happly : r.call.apply data = .ok new) (hread : ∀ st parsed, u ≠ .read (some st) parsed true)
    (ha : Held i r t (Copied dateImage r data) h) :
    StoreSafe dateImage initial i r (Outcome i r t fun new => Held i r t (Mutated r new))
      ((JsonFileStore.touch r.handle u).bind fun _ => .ret new) h := by
  have prepared : ∀ h, SeqPrepared dateImage i r h (.store r.handle u) := fun h => by
    unfold SeqPrepared
    split
    · rename_i heq
      cases heq
    · rename_i heq
      cases heq
    · rename_i st parsed heq
      cases heq
      exact absurd rfl (hread st parsed)
    · trivial
  refine store_call (Held.stable keeps_copied) (fun _ _ => ⟨rfl, by simp [hu], by simp [hstat]⟩)
    (fun h _ => prepared h) (fun h _ _ _ ha inv hx _ => ?_) ha
  have ha' := ha.idle keeps_copied inv hx (prepared h) hu
  exact ⟨ha'.1, ha'.2.mutated happly⟩

theorem update_held {key : String} {mutate : Option Json → Except StoreError Json} {shared : Bool}
    (hcall : r.call = .update key mutate) (ha : Held i r t (Copied dateImage r data) h) :
    StoreSafe dateImage initial i r (Outcome i r t fun new => Held i r t (Mutated r new))
      (.call (.store r.handle (.updating key shared)) fun store => do
        let value ← JsonFileStore.lift (mutate (store.revived dateImage data key))
        JsonFileStore.touch r.handle (.addRevived key)
        return data.insert key value) h := by
  refine store_call (Held.stable keeps_copied)
    (fun _ _ => ⟨rfl, by simp [StoreUpdate.exclusive], by simp [StoreUpdate.stat]⟩)
    (fun _ _ => trivial) (fun h inp res s ha inv hx _ => ?_) ha
  have ha' := ha.idle keeps_copied inv hx trivial rfl
  -- what the file holds is printed as it stands, so that reviving it changes nothing
  have hkeeps : (data.lookup key).map (reviveDates dateImage) = data.lookup key := by
    cases hv : data.lookup key with
    | none => rfl
    | some v => rw [Option.map_some, inv.dates key v (ha.2.1 key ▸ hv)]
  have hrevived : res.revived dateImage data key = data.lookup key := by
    unfold JsonFileStore.revived
    split_ifs
    · rfl
    · exact hkeeps
  rw [hrevived]
  cases hm : mutate (data.lookup key) with
  | error x => exact ⟨ha'.1, ha'.2.2.2 ⟨key, mutate, x, hcall, by rw [hkeeps, hm]⟩⟩
  | ok value =>
    refine edit_held rfl rfl ?_ (fun _ _ => by simp) ha'
    rw [hcall]
    simp only [StoreCall.apply, hm, Except.map]

theorem tmpStep_held {step : TmpStep} (keeps : Keeps r.handle P)
    (hfail : ∀ s inp (x : StoreError), P s →
      FailsHarmlessly dateImage ⟨i, r, .tmp step, inp, .error x, s, s⟩ → Coherent r.handle s)
    (ha : Held i r t P h) :
    StoreSafe dateImage initial i r
      (Outcome i r t fun _ => Held i r t P) (JsonFileStore.tmpStep step) h := by
  refine store_call (Held.stable keeps) (fun _ _ => trivial) (fun _ _ => trivial)
    (fun h inp res s ha inv hx hharm => ?_) ha
  have ha' := ha.idle keeps inv hx trivial trivial
  cases res with
  | ok u => exact ha'
  | error x =>
    obtain ⟨-, rfl⟩ : guarded inp.fault () = .error x ∧ h.shared = s := by
      simpa [storeExec] using hx
    exact ⟨ha'.1, hfail _ _ x ha.2 hharm⟩

/-- The texts of a changed map are those of its values. -/
theorem Mutated.serialized {new : Table String Json} (hp : Mutated r new s)
    (hkey : ∀ key, r.call.sets = some key → key = mutatedKey) (hdates : KeepsDates dateImage new) :
    let store := s.store r.handle
    Serialized dateImage r new (serializeMap store.rawJsonByKey new mutatedKey)
      (s.setStore r.handle
        { store with rawJsonByKey := serializeMap store.rawJsonByKey new mutatedKey }) := by
  obtain ⟨⟨c, happly, hsame⟩, htexts⟩ := hp
  have heq : ∀ k, (serializeMap (s.store r.handle).rawJsonByKey new mutatedKey).lookup k =
      new.lookup k := by
    refine serializeMap_eq fun k v hne hmem hv => ?_
    obtain ⟨w, hw⟩ := Option.isSome_iff_exists.mp (AList.lookup_isSome.mpr hmem)
    have hold := apply_other happly (fun hs => hne (hkey k hs)) (hsame k ▸ hw)
    rw [hw, htexts k v w hv hold]
  refine ⟨⟨c, happly, hsame⟩, heq, fun k v hv => hdates k v (heq k ▸ hv), fun k v hv => ?_⟩
  rw [store_setStore] at hv
  exact heq k ▸ hv

theorem writeTmp_held {new text : Table String Json}
    (ha : Held i r t (Serialized dateImage r new text) h) :
    StoreSafe dateImage initial i r (Outcome i r t fun _ => Held i r t (Serialized dateImage r new text))
      ((JsonFileStore.tmpStep .open).bind fun _ =>
        ((JsonFileStore.tmpStep .write).bind fun _ => JsonFileStore.tmpStep .sync).ensure
          (JsonFileStore.tmpStep .close)) h := by
  have step : ∀ {h step}, step ≠ .dir → Held i r t (Serialized dateImage r new text) h →
      StoreSafe dateImage initial i r
        (Outcome i r t fun _ => Held i r t (Serialized dateImage r new text))
        (JsonFileStore.tmpStep step) h := fun hne ha => by
    refine tmpStep_held keeps_serialized (fun s inp x hp hf => ?_) ha
    have hf' : Settled r.handle s ∧ Unset r s := by
      unfold FailsHarmlessly at hf
      split at hf <;> simp_all
    exact coherent_of_unset hp hf'.1 hf'.2
  refine (step (by simp) ha).bind (fun _ h ha => ?_) fun _ _ he => he
  refine Safe.settle (R := Outcome i r t fun _ => Held i r t (Serialized dateImage r new text))
    ((step (by simp) ha).bind (fun _ h ha => step (by simp) ha) fun _ _ he => he)
    fun out h hout => ?_
  cases out with
  | ok u => exact (step (by simp) hout).bind (fun _ _ ha => ha) fun _ _ he => he
  | error e =>
    exact (tmpStep_held keeps_coherent (fun _ _ _ hc _ => hc) hout).bind (fun _ _ ha => ha)
      fun _ _ he => he

/-- A rename that gives up. -/
theorem Serialized.coherent {new text : Table String Json} {attempt : ℕ} {x : StoreError}
    (hp : Serialized dateImage r new text s)
    (hf : FailsHarmlessly dateImage ⟨i, r, .rename text attempt, inp, .error x, s, s⟩)
    (hlast : JsonFileStore.renamesAgain attempt x = false) : Coherent r.handle s :=
  coherent_of_unset hp (hf hlast).1 (hf hlast).2

/-- One attempt to rename. -/
theorem rename_call {new text : Table String Json} {attempt : ℕ}
    {next : Except StoreError Unit → StoreProg Unit}
    (ha : Held i r t (Serialized dateImage r new text) h)
    (done : ∀ h, Held i r t (Renamed r.handle new) h →
      StoreSafe dateImage initial i r
        (Outcome i r t fun _ => Held i r t (Renamed r.handle new)) (next (.ok ())) h)
    (failed : ∀ h x, Held i r t (Serialized dateImage r new text) h →
      (JsonFileStore.renamesAgain attempt x = false → Coherent r.handle h.shared) →
      StoreSafe dateImage initial i r
        (Outcome i r t fun _ => Held i r t (Renamed r.handle new)) (next (.error x)) h) :
    StoreSafe dateImage initial i r (Outcome i r t fun _ => Held i r t (Renamed r.handle new))
      (.call (.rename text attempt) next) h := by
  refine store_call (Held.stable keeps_serialized) (fun _ ha => ⟨t, ha.1⟩) (fun h ha => ?_)
    (fun h inp res s ha inv hx hf => ?_) ha
  · obtain ⟨⟨c, happly, hsame⟩, htext, hdates, -⟩ := ha.2
    exact ⟨c, happly, fun k => (htext k).trans (hsame k), hdates⟩
  · have hown := ha.1.own hx (by simp)
    simp only [storeExec] at hx
    split at hx
    · cases hx
      exact failed _ _ ⟨hown, ha.2⟩ fun hlast => ha.2.coherent hf hlast
    · cases hx
      exact done _ ⟨hown, fun k => (ha.2.2.1 k).symm, ha.2.2.2.2⟩

theorem renameFrom_held {new text : Table String Json} (left : ℕ)
    (ha : Held i r t (Serialized dateImage r new text) h) :
    StoreSafe dateImage initial i r (Outcome i r t fun _ => Held i r t (Renamed r.handle new))
      (JsonFileStore.renameFrom text left) h := by
  induction left generalizing h with
  | zero =>
    exact rename_call ha (fun _ ha => ha) fun _ _ ha hc =>
      ⟨ha.1, hc (by simp [JsonFileStore.renamesAgain])⟩
  | succ left ih =>
    refine rename_call ha (fun _ ha => ha) fun h x ha hc => ?_
    dsimp only
    split_ifs with hagain
    · exact ih ha
    · exact ⟨ha.1, hc (by simpa using hagain)⟩

theorem renamed_chmod {new : Table String Json} {n m : ℕ} (hp : Renamed hd new s) :
    Renamed hd new { s with file := s.file.map fun f => { f with stat := n }, stamps := m } := by
  refine ⟨fun k => (hp.1 k).trans ?_, hp.2⟩
  cases hf : s.file <;> simp [StoreShared.contents, hf]

/-- What follows the rename cannot fail. -/
theorem settled_held {new : Table String Json} (ha : Held i r t (Renamed r.handle new) h) :
    StoreSafe dateImage initial i r (Outcome i r t fun _ => Held i r t (Renamed r.handle new))
      (.call .chmod fun _ => .call .fsyncDir fun _ => do
        JsonFileStore.touch r.handle .renamed
        let st ← (JsonFileStore.currentStat r.handle).handle fun _ => .ret none
        JsonFileStore.touch r.handle (.statted st)) h := by
  refine store_call (Held.stable keeps_renamed) (fun _ ha => ⟨t, ha.1⟩) (fun _ _ => trivial)
    (fun h inp res s ha inv hx _ => ?_) ha
  have ha' : Held i r t (Renamed r.handle new) (h.ran i r .chmod inp res s) := by
    refine ⟨ha.1.own hx (by simp), ?_⟩
    cases hx
    change Renamed r.handle new (if _ then _ else _)
    split_ifs
    · exact ha.2
    · exact renamed_chmod ha.2
  refine store_call (Held.stable keeps_renamed) (fun _ _ => trivial) (fun _ _ => trivial)
    (fun h _ _ _ ha inv hx _ => ?_) ha'
  refine store_call (Held.stable keeps_renamed)
    (fun _ _ => ⟨rfl, by simp [StoreUpdate.exclusive], by simp [StoreUpdate.stat]⟩)
    (fun _ _ => trivial) (fun h _ _ _ ha inv hx _ => ?_) (ha.idle keeps_renamed inv hx trivial trivial)
  have ha' := ha.idle keeps_renamed inv hx trivial rfl
  refine Safe.bind
    (R := Outcome i r t fun st h => Held i r t (Renamed r.handle new) h ∧ Below st h)
    ((currentStat_held keeps_renamed ha').settle fun out h hout => ?_) (fun st h hst => ?_)
    fun _ _ he => he
  · cases out with
    | ok st => exact ⟨⟨hout.1.1, hout.1.2.1⟩, hout.2⟩
    | error e => exact ⟨hout, fun n hn => by cases hn⟩
  · refine store_call ((Held.stable keeps_renamed).and below_stable)
      (fun h ha => ⟨rfl, fun _ => ⟨t, ha.1.1⟩, ha.2⟩) (fun _ _ => trivial)
      (fun h _ _ _ ha _ hx _ => ?_) hst
    refine ⟨ha.1.1.own hx (by simp), ?_⟩
    cases hx
    refine ⟨ha.1.2.1, fun k v hv => ha.1.2.2 k v ?_⟩
    change ((h.shared.setStore r.handle _).store r.handle).rawJsonByKey.lookup k = some v at hv
    rwa [store_setStore] at hv

theorem persist_held {new : Table String Json}
    (hkey : ∀ key, r.call.sets = some key → key = mutatedKey) (ha : Held i r t (Mutated r new) h) :
    StoreSafe dateImage initial i r (Outcome i r t fun _ => Held i r t (Renamed r.handle new))
      (JsonFileStore.persist r.handle new mutatedKey) h := by
  refine (tmpStep_held keeps_mutated (fun s _ _ hp hf => ?_) ha).bind (fun _ h ha => ?_)
    fun _ _ he => he
  · exact coherent_of_settled hf hp.2
  refine store_call (Held.stable keeps_mutated)
    (fun h ha => ⟨rfl, fun _ => ⟨t, ha.1⟩, by simp [StoreUpdate.stat]⟩) (fun _ _ => trivial)
    (fun h _ _ _ ha _ hx hf => ?_) ha
  have hown := ha.1.own hx (by simp)
  cases hx
  have hserial : Held i r t (Serialized dateImage r new _) _ := ⟨hown, ha.2.serialized hkey hf⟩
  simp only [Prog.bind_def]
  rw [← Prog.bind_assoc]
  refine (writeTmp_held hserial).bind (fun _ h ha => ?_) fun _ _ he => he
  exact (renameFrom_held 4 ha).bind (fun _ h ha => settled_held ha) fun _ _ he => he

/-- A snapshot whose fingerprint is the file's is a copy of the file. -/
theorem copied_of_matches (hp : Statted r.handle st s)
    (hmatch : (s.store r.handle).statMatches st = true) :
    Copied dateImage r (s.store r.handle).data (s.setStore r.handle (s.store r.handle)) := by
  have htrust : (s.store r.handle).Trusts s.file := by
    simp only [JsonFileStore.statMatches, Bool.and_eq_true, decide_eq_true_eq] at hmatch
    obtain ⟨⟨hloaded, hsome⟩, heq⟩ := hmatch
    obtain ⟨n, hn⟩ := Option.isSome_iff_exists.mp hsome
    obtain ⟨f, hf, rfl⟩ := Option.map_eq_some_iff.mp (hp.2.trans (heq.trans hn))
    exact ⟨hloaded, f, hf, hn⟩
  obtain ⟨hsame, htexts⟩ := hp.1 htrust
  refine ⟨hsame, fun k v w hv hw => htexts k v w ?_ hw, fun _ => ?_⟩
  · rwa [store_setStore] at hv
  · unfold Coherent
    rw [store_setStore]
    exact hp.1

/-- In the end the instance takes the map it wrote for its snapshot. -/
theorem adopted_held {new : Table String Json} (ha : Held i r t (Renamed r.handle new) h) :
    StoreSafe dateImage initial i r (Outcome i r t fun _ => Held i r t (Coherent r.handle))
      (JsonFileStore.touch r.handle (.adopted new)) h := by
  refine store_call (Held.stable keeps_renamed)
    (fun h ha => ⟨rfl, fun _ => ⟨t, ha.1⟩, by simp [StoreUpdate.stat]⟩) (fun _ _ => trivial)
    (fun h _ _ _ ha _ hx _ => ?_) ha
  refine ⟨ha.1.own hx (by simp), ?_⟩
  cases hx
  change JsonFileStore.Coherent (h.shared.setStore r.handle _) ((h.shared.setStore r.handle _).store _)
  rw [store_setStore]
  exact fun _ => ⟨ha.2.1, fun k v w hv hw => Option.some.inj ((ha.2.2 k v hv).symm.trans hw)⟩

/-- The whole of a write, from the lock to its release. -/
theorem locked_held (hmut : ∀ shared data h, Held i r t (Copied dateImage r data) h →
      StoreSafe dateImage initial i r
        (Outcome i r t fun new => Held i r t (Mutated r new)) (mutate shared data) h)
    (hkey : ∀ key, r.call.sets = some key → key = mutatedKey)
    (ha : Held i r t (Coherent r.handle) h) :
    StoreSafe dateImage initial i r (Outcome i r t fun _ => Held i r t (Coherent r.handle)) (do
        let st ← JsonFileStore.currentStat r.handle
        let store ← (.call (.store r.handle .look) .ret : StoreProg JsonFileStore)
        let shared := store.statMatches st
        let data ← if shared then .ret store.data
          else JsonFileStore.readFromDisk r.handle st false
        let data ← mutate shared data
        JsonFileStore.persist r.handle data mutatedKey
        JsonFileStore.touch r.handle (.adopted data)) h := by
  refine Safe.bind (R := Outcome i r t fun st h => Held i r t (Statted r.handle st) h ∧ Below st h)
    ((currentStat_held keeps_coherent ha).mono fun out h hout => ?_) (fun st h hst => ?_)
    fun _ _ he => he
  · cases out with
    | ok st => exact hout
    | error e => exact hout
  refine store_call ((Held.stable keeps_statted).and below_stable)
    (fun _ _ => ⟨rfl, by simp [StoreUpdate.exclusive], by simp [StoreUpdate.stat]⟩)
    (fun _ _ => trivial) (fun h _ store _ ha inv hx _ => ?_) hst
  have hb := ha.2.ran (i := i) (r := r) hx
  have ha' := ha.1.idle keeps_statted inv hx trivial rfl
  have rest : ∀ shared data h, Held i r t (Copied dateImage r data) h →
      StoreSafe dateImage initial i r (Outcome i r t fun _ => Held i r t (Coherent r.handle))
        ((mutate shared data).bind fun data => (JsonFileStore.persist r.handle data mutatedKey).bind
          fun _ => JsonFileStore.touch r.handle (.adopted data)) h := fun shared data h hdata =>
    (hmut shared data h hdata).bind (fun _ h hnew => (persist_held hkey hnew).bind
      (fun _ h hdone => adopted_held hdone) fun _ _ he => he) fun _ _ he => he
  change Safe _ _ _ _ _ (if store.statMatches st then _ else _) _
  split_ifs with hmatch
  · refine rest _ store.data _ ⟨ha'.1, ?_⟩
    cases hx
    exact copied_of_matches ha.1.2 hmatch
  · exact (readFromDisk_held ha' hb).bind (fun data h hdata => rest _ data h hdata)
      fun _ _ he => he

end Writer

def Alive (r : StoreRequest) (h : StoreHist) : Prop := r.handle.process ∉ h.dead

theorem alive_stable : Stable (storeContract dateImage initial) i r (Alive r) :=
  fun _ _ hr ha => hr.1 ha

theorem Alive.ran {res : StoreRes op} (ha : Alive r h) : Alive r (h.ran i r op inp res s) := by
  simpa [Alive, Hist.ran] using ha

theorem owns_acquired {t : ℕ} : Owns i t (h.ran i r (.acquire hd) inp (.ok t) s) := by
  refine ⟨⟨i, r, .acquire hd, inp, .ok t, h.shared, s⟩, ?_, rfl⟩
  rw [Hist.ran, Hist.entriesOf_push_ran, if_pos rfl]
  exact List.mem_append_right _ (List.mem_singleton.mpr rfl)

theorem withLock_safe (hmut : ∀ t shared data h, Held i r t (Copied dateImage r data) h →
      StoreSafe dateImage initial i r
        (Outcome i r t fun new => Held i r t (Mutated r new)) (mutate shared data) h)
    (hkey : ∀ key, r.call.sets = some key → key = mutatedKey) (ha : Alive r h) :
    StoreSafe dateImage initial i r (fun _ _ => True)
      (JsonFileStore.withLock r.handle mutate mutatedKey) h := by
  refine store_call alive_stable (fun _ _ => trivial) (fun _ _ => trivial)
    (fun h _ res _ ha _ _ _ => ?_) ha
  cases res with
  | error e => trivial
  | ok u =>
    refine store_call alive_stable (fun _ _ => rfl) (fun _ _ => trivial)
      (fun h inp res s ha inv hx _ => ?_) ha.ran
    cases res with
    | error e => trivial
    | ok t =>
      have hheld : Held i r t (Coherent r.handle) (h.ran i r (.acquire r.handle) inp (.ok t) s) := by
        simp only [storeExec] at hx
        split at hx
        · cases hx
        · split_ifs at hx with hfree
          cases hx
          refine ⟨⟨owns_acquired, rfl⟩, ?_⟩
          rcases inv.coherent r.handle ha with hcoh | ⟨t, ht⟩
          · exact hcoh
          · simp [ht] at hfree
      refine (locked_held (hmut t) hkey hheld).settle fun out h hout => ?_
      have hc : Held i r t (Coherent r.handle) h := by cases out <;> exact hout
      refine store_call (Held.stable keeps_coherent) (fun _ ha => ha.1.1) (fun _ ha => ha)
        (fun _ _ _ _ _ _ _ _ => ?_) hc
      cases out <;> trivial

/-! Readers. -/

section Reader

theorem true_stable : Stable (storeContract dateImage initial) i r fun _ => True :=
  fun _ _ _ => id

/-- What was read under a fingerprint is what the file has as long as it has that one. -/
def ReadAt (n : ℕ) (parsed : Table String Json) (h : StoreHist) : Prop :=
  n < h.shared.stamps ∧ ∀ f, h.shared.file = some f → f.stat = n →
    ∀ k, parsed.lookup k = f.contents.lookup k

theorem readAt_stable {n : ℕ} {parsed : Table String Json} :
    Stable (storeContract dateImage initial) i r (ReadAt n parsed) := by
  rintro h h' ⟨-, hle, hfile, -⟩ ⟨hn, hread⟩
  refine ⟨lt_of_lt_of_le hn hle, fun f hf hst => ?_⟩
  rcases hfile f hf with hold | hnew
  · exact hread f hold hst
  · omega

theorem store_free {next : JsonFileStore → StoreProg α} (hu : u.exclusive = false)
    (hstat : u.stat = none) (rest : ∀ store h, StoreSafe dateImage initial i r Q (next store) h) :
    StoreSafe dateImage initial i r Q (.call (.store r.handle u) next) h := by
  refine store_call true_stable (fun _ _ => ⟨rfl, by simp [hu], by simp [hstat]⟩) (fun _ _ => ?_)
    (fun _ _ _ _ _ _ _ _ => rest _ _) trivial
  unfold SeqPrepared
  split
  · rename_i heq
    cases heq
  · rename_i heq
    cases heq
  · rename_i heq
    cases heq
    cases hstat
  · trivial

theorem currentStat_free :
    StoreSafe dateImage initial i r
      (fun out h => ∀ st, out = .ok st → Below st h)
      (JsonFileStore.currentStat r.handle) h := by
  refine store_call true_stable (fun _ _ => trivial) (fun _ _ => trivial)
    (fun h inp res s _ inv hx _ => ?_) trivial
  cases res with
  | error e => exact fun st hst => by cases hst
  | ok st =>
    obtain ⟨hst, -⟩ : guarded inp.fault (h.shared.file.map StoredFile.stat) = .ok st ∧
        h.shared = s := by simpa [storeExec] using hx
    have hb := (guarded_ok hst ▸ below_stat inv.lock : Below st h).ran (i := i) (r := r) hx
    cases st with
    | some n =>
      rintro st ⟨⟩
      exact hb
    | none =>
      refine store_free rfl rfl fun store h => ?_
      split_ifs
      · exact fun st hst => by cases hst
      · rintro st ⟨⟩ n hn
        cases hn

theorem adopt_free {n : ℕ} (hb : Below (some n) h) :
    StoreSafe dateImage initial i r (fun _ _ => True)
      (JsonFileStore.readFromDisk r.handle (some n) true) h := by
  refine store_call below_stable (fun _ _ => trivial) (fun _ _ => trivial)
    (fun h inp res s hb inv hx _ => ?_) hb
  cases res with
  | error e => exact store_free rfl rfl fun _ _ => trivial
  | ok parsed =>
    obtain ⟨hparsed, rfl⟩ : guarded inp.fault (h.shared.file.map StoredFile.contents) = .ok parsed ∧
        h.shared = s := by simpa [storeExec] using hx
    have hparsed := guarded_ok hparsed
    cases parsed with
    | some parsed =>
      have hread : ReadAt n parsed (h.ran i r .readFile inp (.ok (some parsed)) h.shared) := by
        refine ⟨hb n rfl, fun f hf _ k => ?_⟩
        rw [show h.shared.file = some f from hf, Option.map_some, Option.some.injEq] at hparsed
        rw [hparsed]
      refine store_call readAt_stable (fun h hr => ⟨rfl, by simp [StoreUpdate.exclusive], ?_⟩)
        (fun h hr => hr.2) (fun _ _ _ _ _ _ _ _ => trivial) hread
      rintro st ⟨⟩
      exact hr.1
    | none =>
      refine store_free rfl rfl fun store h => ?_
      split_ifs
      · exact store_free rfl rfl fun _ _ => trivial
      · exact store_free rfl rfl fun _ _ => trivial

theorem reloadFromDisk_safe :
    StoreSafe dateImage initial i r (fun _ _ => True) (JsonFileStore.reloadFromDisk r.handle) h := by
  refine currentStat_free.bind (fun st h hst => ?_) fun _ _ _ => trivial
  cases st with
  | none => exact store_free rfl rfl fun _ _ => trivial
  | some n =>
    refine store_call below_stable
      (fun _ _ => ⟨rfl, by simp [StoreUpdate.exclusive], by simp [StoreUpdate.stat]⟩)
      (fun _ _ => trivial) (fun h _ _ _ hb _ hx _ => ?_) (hst _ rfl)
    have hb' := hb.ran (i := i) (r := r) hx
    split_ifs
    · trivial
    · exact (adopt_free hb').bind (fun _ _ _ => trivial) fun _ _ _ => trivial

theorem reading_safe {f : JsonFileStore → α} (hu : u.exclusive = false) (hstat : u.stat = none) :
    StoreSafe dateImage initial i r (fun _ _ => True)
      ((JsonFileStore.reloadFromDisk r.handle).bind fun _ =>
        .call (.store r.handle u) fun store => .ret (f store)) h :=
  reloadFromDisk_safe.bind (fun _ _ _ => store_free hu hstat fun _ _ => trivial)
    fun _ _ _ => trivial

end Reader

end Safety

section Run

variable {dateImage : String → Json} {initial : Table String Json}

theorem safe_map {α β : Type} {i : ℕ} {p : StoreProg α} (f : α → β)
    (hp : StoreSafe dateImage initial i r (fun _ _ => True) p h) :
    StoreSafe dateImage initial i r (fun _ _ => True) (f <$> p) h :=
  hp.bind (fun _ _ _ => trivial) fun _ _ _ => trivial

theorem storeBody_safe (i : ℕ) (r : StoreRequest) (ha : Alive r h) :
    StoreSafe dateImage initial i r (fun _ _ => True) (r.body dateImage) h := by
  have edit : ∀ {u} (new : Table String Json → Table String Json) {key : String},
      u.exclusive = false → u.stat = none →
      (∀ st parsed, u ≠ .read (some st) parsed true) → (∀ data, r.call.apply data = .ok (new data)) →
      (∀ k, r.call.sets = some k → k = key) →
      StoreSafe dateImage initial i r (fun _ _ => True)
        (JsonFileStore.withLock r.handle (fun _ data => (JsonFileStore.touch r.handle u).bind
          fun _ => .ret (new data)) key) h := fun _ _ hu hstat hread happly hkey =>
    withLock_safe (fun _ _ data _ hdata => edit_held hu hstat (happly data) hread hdata) hkey ha
  unfold StoreRequest.body
  split <;> rename_i hcall
  · exact safe_map _ (reading_safe rfl rfl)
  · exact reading_safe rfl rfl
  · refine safe_map _ (withLock_safe (fun t shared data h hdata => update_held hcall hdata) ?_ ha)
    rw [hcall]
    rintro k ⟨⟩
    rfl
  · refine safe_map _ (edit _ rfl rfl (by simp) (fun data => by rw [hcall]; rfl) ?_)
    rw [hcall]
    rintro k ⟨⟩
    rfl
  · refine safe_map _ (edit _ rfl rfl (by simp) (fun data => by rw [hcall]; rfl) ?_)
    rw [hcall]
    rintro k ⟨⟩
  · refine safe_map _ (edit (fun _ => ∅) rfl rfl (by simp) (fun data => by rw [hcall]; rfl) ?_)
    rw [hcall]
    rintro k ⟨⟩

theorem lockInv_began {i : ℕ} (inv : LockInv h) :
    LockInv (h.push (.began i r) h.shared) := by
  refine ⟨inv.stat, inv.lastStat, by simpa using inv.tokens, by simpa [lastAcquire] using inv.locked,
    fun pre e post he hw => ?_⟩
  rcases Hist.split_push he with ⟨post', hold⟩ | ⟨hev, -⟩
  · exact inv.ordered pre e post' hold hw
  · cases hev

theorem lockInv_crashed {p : ℕ} (inv : LockInv h) :
    LockInv (h.push (.crashed p) (h.shared.crash p)) := by
  refine ⟨inv.stat, inv.lastStat, by simpa [StoreShared.crash] using inv.tokens,
    fun hd t hl => ?_, fun pre e post he hw => ?_⟩
  · obtain ⟨a, ha, ht⟩ := inv.locked hd t (Option.filter_eq_some_iff.mp hl).1
    exact ⟨a, by simpa [lastAcquire] using ha, ht⟩
  · rcases Hist.split_push he with ⟨post', hold⟩ | ⟨hev, -⟩
    · exact inv.ordered pre e post' hold hw
    · cases hev

theorem storeUpheld : (storeContract dateImage initial).Upheld (storeSystem dateImage)
    fun _ _ _ _ => True where
  okPrefix h ev s (hok : (h.push ev s).Always fun _ e => FailsHarmlessly dateImage e) :=
    hok.past
  refl _ _ _ := ⟨id, le_rfl, fun _ => .inl, fun _ hh => ⟨hh, .same rfl rfl⟩⟩
  trans i r h₁ h₂ h₃ h₁₂ h₂₃ := by
    obtain ⟨ha, hle, hfile, hlock⟩ := h₁₂
    obtain ⟨ha', hle', hfile', hlock'⟩ := h₂₃
    refine ⟨fun alive => ha' (ha alive), hle.trans hle', fun f hf => ?_, fun t hh => ?_⟩
    · rcases hfile' f hf with hf' | hnew
      · exact hfile f hf'
      · exact .inr (hle.trans hnew)
    · obtain ⟨hh', hk⟩ := hlock t hh
      obtain ⟨hh'', hk'⟩ := hlock' t hh'
      refine ⟨hh'', hk'.1.trans hk.1, ?_, fun hc => hk'.2.2 (hk.2.2 hc)⟩
      rcases hk'.2.1 with hr | hr
      · rw [hr]
        exact hk.2.1
      · exact .inr hr
  began h i r s inv _ alive hadmit _ := by
    cases hadmit
    refine ⟨⟨lockInv_began inv.lock, by simpa using inv.coherent, inv.dates, ?_⟩, fun j d _ => ?_,
      storeBody_safe i r (by simpa [Alive] using (show r.handle.process ∉ h.dead from alive))⟩
    · simpa [doneWrites] using inv.contents
    · refine ⟨fun alive => by simpa using alive, le_rfl, fun _ => .inl, fun t hh => ⟨?_, .same rfl rfl⟩⟩
      exact ⟨by simpa [Owns] using hh.1, hh.2⟩
  crashed h p inv _ := by
    refine ⟨⟨lockInv_crashed inv.lock, fun hd alive => ?_, inv.dates, ?_⟩, fun j d hd => ?_⟩
    · simp only [Hist.dead_push_crashed, List.mem_append, List.mem_singleton, not_or] at alive
      rcases inv.coherent hd alive.1 with hc | ⟨t, ht⟩
      · exact .inl (hc.same rfl rfl rfl (fun _ _ => rfl) rfl)
      · exact .inr ⟨t, Option.filter_eq_some_iff.mpr ⟨ht, by simpa using alive.2⟩⟩
    · simpa [doneWrites, storeSystem, StoreShared.crash, StoreShared.contents] using inv.contents
    · refine ⟨fun alive => ?_, le_rfl, fun _ => .inl, fun t hh => ⟨?_, .same rfl rfl⟩⟩
      · rw [Hist.dead_push_crashed, List.mem_append, List.mem_singleton, not_or]
        exact ⟨alive, (show d.handle.process ≠ p from hd)⟩
      · exact ⟨by simpa [Owns] using hh.1,
          Option.filter_eq_some_iff.mpr ⟨hh.2, by simpa using (show d.handle.process ≠ p from hd)⟩⟩

end Run

/-! Each call that returns has written once. -/

variable {h : StoreHandle}

section Counting

variable {α β : Type} {es : List StoreEntry}

def renames (es : List StoreEntry) : ℕ := (es.filter writeDone).length

def StoreOp.quiet : StoreOp → Prop
  | .rename _ _ => False
  | _ => True

/-- One write if the procedure returns, none if it throws. -/
def WritesOnce (p : StoreProg α) : Prop :=
  ∀ (es : List StoreEntry) out, Ends p es out → renames es = if out.isOk then 1 else 0

def Returns (p : StoreProg α) : Prop := ∀ (es : List StoreEntry) out, Ends p es out → out.isOk = true

theorem renames_append (es es' : List StoreEntry) : renames (es ++ es') = renames es + renames es' := by
  simp [renames]

theorem renames_quiet {p : StoreProg α} (hp : p.Only StoreOp.quiet) {out : Except StoreError α}
    (h : Ends p es out) : renames es = 0 := by
  rw [renames, List.length_eq_zero_iff, List.filter_eq_nil_iff]
  intro e he
  have hq := hp.mem h e he
  obtain ⟨i, c, op, inp, res, before, after⟩ := e
  cases op with
  | rename contents attempt => exact hq.elim
  | _ => simp [writeDone]

theorem WritesOnce.after {p : StoreProg α} {f : α → StoreProg β} (hp : p.Only StoreOp.quiet)
    (hf : ∀ a, WritesOnce (f a)) : WritesOnce (p.bind f) := by
  intro es out h
  rcases Ends.bind_iff.mp h with ⟨e, rfl, herr⟩ | ⟨es₁, es₂, a, rfl, h₁, h₂⟩
  · exact renames_quiet hp herr
  · rw [renames_append, renames_quiet hp h₁, hf a es₂ out h₂, zero_add]

theorem WritesOnce.before {p : StoreProg α} {f : α → StoreProg β} (hp : WritesOnce p)
    (hf : ∀ a, (f a).Only StoreOp.quiet) (hret : ∀ a, Returns (f a)) : WritesOnce (p.bind f) := by
  intro es out h
  rcases Ends.bind_iff.mp h with ⟨e, rfl, herr⟩ | ⟨es₁, es₂, a, rfl, h₁, h₂⟩
  · exact hp es _ herr
  · rw [renames_append, hp es₁ _ h₁, renames_quiet (hf a) h₂, hret a es₂ out h₂]
    rfl

theorem WritesOnce.ensure {p : StoreProg α} {cleanup : StoreProg Unit} (hp : WritesOnce p)
    (hq : cleanup.Only StoreOp.quiet) (hret : Returns cleanup) : WritesOnce (p.ensure cleanup) := by
  intro es out h
  obtain ⟨es₁, es₂, mid, rfl, hbody, hclean⟩ := Ends.settle_iff.mp h
  rw [renames_append, renames_quiet (hq.bind fun _ => Prog.only_resume) hclean, hp es₁ mid hbody]
  rcases Ends.bind_iff.mp hclean with ⟨e, -, herr⟩ | ⟨_, es₃, _, -, -, hend⟩
  · cases hret _ _ herr
  · rw [(Ends.resume_iff.mp hend).2, add_zero]

theorem WritesOnce.call {next : StoreRes op → StoreProg α} (hop : op.quiet)
    (hnext : ∀ res, WritesOnce (next res)) : WritesOnce (.call op next) :=
  WritesOnce.after (p := .call op .ret) ⟨hop, fun _ => trivial⟩ hnext

theorem WritesOnce.raise {e : StoreError} : WritesOnce (.raise e : StoreProg α) := by
  intro es out h
  obtain ⟨rfl, rfl⟩ := Ends.raise_iff.mp h
  rfl

theorem Returns.ret {a : α} : Returns (.ret a : StoreProg α) := by
  intro es out h
  obtain ⟨-, rfl⟩ := Ends.ret_iff.mp h
  rfl

theorem Returns.call {next : StoreRes op → StoreProg α} (hnext : ∀ res, Returns (next res)) :
    Returns (.call op next) := by
  intro es out h
  obtain ⟨_, _, _, res, _, _, es', -, hends⟩ := Ends.call_iff.mp h
  exact hnext res es' out hends

theorem Returns.bind {p : StoreProg α} {f : α → StoreProg β} (hp : Returns p)
    (hf : ∀ a, Returns (f a)) : Returns (p.bind f) := by
  intro es out h
  rcases Ends.bind_iff.mp h with ⟨e, -, herr⟩ | ⟨es₁, es₂, a, -, -, hends⟩
  · cases hp es _ herr
  · exact hf a es₂ out hends

theorem Returns.caught {p : StoreProg α} {a : α} : Returns (p.handle fun _ => .ret a) := by
  intro es out h
  obtain ⟨b, rfl⟩ := Ends.handle_ret h
  rfl

theorem renameFrom_once (text : Table String Json) (left : ℕ) :
    WritesOnce (JsonFileStore.renameFrom text left) := by
  have one : ∀ {attempt : ℕ} {next : Except StoreError Unit → StoreProg Unit},
      next (.ok ()) = .ret () → (∀ x, WritesOnce (next (.error x))) →
      WritesOnce (.call (.rename text attempt) next) := by
    intro attempt next hok herr es out h
    obtain ⟨i, c, inp, res, before, after, es', rfl, hnext⟩ := Ends.call_iff.mp h
    cases res with
    | ok u =>
      rw [hok] at hnext
      obtain ⟨rfl, rfl⟩ := Ends.ret_iff.mp hnext
      rfl
    | error x => exact herr x es' out hnext
  induction left with
  | zero => exact one rfl fun x => .raise
  | succ left ih =>
    refine one rfl fun x => ?_
    dsimp only
    split_ifs
    · exact ih
    · exact .raise

theorem touch_quiet :
    (JsonFileStore.touch h u).Only StoreOp.quiet := ⟨trivial, fun _ => trivial⟩

theorem touch_returns : Returns (JsonFileStore.touch h u) :=
  .call fun _ => .ret

theorem currentStat_quiet : (JsonFileStore.currentStat h).Only StoreOp.quiet := by
  refine ⟨trivial, fun res => ?_⟩
  cases res with
  | error e => trivial
  | ok st =>
    cases st with
    | some st => trivial
    | none =>
      refine ⟨trivial, fun store => ?_⟩
      change Prog.Only _ (if store.observedFile then _ else _)
      split_ifs <;> trivial

theorem readKnown_quiet {known : Option ℕ} {adopt : Bool} :
    (JsonFileStore.readKnown h adopt known).Only StoreOp.quiet := by
  cases known with
  | none => exact ⟨trivial, fun _ => trivial⟩
  | some st =>
    refine ⟨trivial, fun res => ?_⟩
    cases res with
    | error e => exact ⟨trivial, fun _ => trivial⟩
    | ok parsed =>
      cases parsed with
      | some parsed => exact ⟨trivial, fun _ => trivial⟩
      | none =>
        refine ⟨trivial, fun store => ?_⟩
        change Prog.Only _ (if store.observedFile then _ else _)
        split_ifs <;> exact ⟨trivial, fun _ => trivial⟩

theorem readFromDisk_quiet {adopt : Bool} :
    (JsonFileStore.readFromDisk h st adopt).Only StoreOp.quiet := by
  cases st with
  | some st =>
    change (JsonFileStore.readKnown h adopt (some st)).Only _
    exact readKnown_quiet
  | none =>
    refine .bind (currentStat_quiet.handle fun e => ?_) fun _ => readKnown_quiet
    exact touch_quiet.bind fun _ => Prog.only_raise

theorem lift_quiet {x : Except StoreError α} : (JsonFileStore.lift x).Only StoreOp.quiet := by
  cases x <;> trivial

theorem tmpStep_quiet {step : TmpStep} : (JsonFileStore.tmpStep step).Only StoreOp.quiet :=
  ⟨trivial, fun _ => lift_quiet⟩

theorem persist_once (h : StoreHandle) (data : Table String Json) (mutatedKey : String) :
    WritesOnce (JsonFileStore.persist h data mutatedKey) := by
  refine .after tmpStep_quiet fun _ => .call trivial fun store => .after tmpStep_quiet fun _ => ?_
  refine .after ?_ fun _ => (renameFrom_once _ 4).before (fun _ => ?_) fun _ => ?_
  · refine (Prog.Only.bind tmpStep_quiet fun _ => tmpStep_quiet).settle fun out => ?_
    exact tmpStep_quiet.bind fun _ => Prog.only_resume
  · refine ⟨trivial, fun _ => ⟨trivial, fun _ => touch_quiet.bind fun _ => ?_⟩⟩
    exact (currentStat_quiet.handle fun _ => Prog.only_ret).bind fun _ => touch_quiet
  · exact .call fun _ => .call fun _ => touch_returns.bind fun _ => Returns.caught.bind fun _ =>
      touch_returns

theorem withLock_once (hmut : ∀ shared data, (mutate shared data).Only StoreOp.quiet) :
    WritesOnce (JsonFileStore.withLock h mutate mutatedKey) := by
  refine .call trivial fun res => ?_
  cases res with
  | error e => exact .raise
  | ok u =>
    refine .call trivial fun res => ?_
    cases res with
    | error e => exact .raise
    | ok token =>
      refine WritesOnce.ensure (.after currentStat_quiet fun st => .call trivial fun store => ?_)
        ⟨trivial, fun _ => trivial⟩ (.call fun _ => .ret)
      have rest : ∀ data, WritesOnce ((mutate (store.statMatches st) data).bind fun data =>
          (JsonFileStore.persist h data mutatedKey).bind fun _ =>
            JsonFileStore.touch h (.adopted data)) := fun data =>
        .after (hmut _ _) fun data => (persist_once h data mutatedKey).before
          (fun _ => touch_quiet) fun _ => touch_returns
      change WritesOnce (if store.statMatches st then _ else _)
      split_ifs
      · exact rest store.data
      · exact .after readFromDisk_quiet rest

theorem reading_quiet {f : JsonFileStore → α} :
    ((JsonFileStore.reloadFromDisk h).bind fun _ =>
      .call (.store h u) fun store => (.ret (f store) : StoreProg α)).Only StoreOp.quiet := by
  refine .bind (currentStat_quiet.bind fun st => ?_) fun _ => ⟨trivial, fun _ => trivial⟩
  cases st with
  | none => exact touch_quiet
  | some st =>
    refine ⟨trivial, fun store => ?_⟩
    change Prog.Only _ (if store.statMatches (some st) then _ else _)
    split_ifs
    · trivial
    · exact readFromDisk_quiet.bind fun _ => trivial

theorem WritesOnce.map {p : StoreProg α} {f : α → β} (hp : WritesOnce p) : WritesOnce (f <$> p) :=
  hp.before (fun _ => trivial) fun _ => .ret

theorem storeBody_counts {out : Except StoreError (List (String × Json))}
    (h : Ends (r.body dateImage) es out) :
    renames es = if r.call.writes && out.isOk then 1 else 0 := by
  have once : ∀ {p : StoreProg Unit}, r.call.writes = true →
      Ends ((fun _ => []) <$> p : StoreProg (List (String × Json))) es out → WritesOnce p →
      renames es = if r.call.writes && out.isOk then 1 else 0 := fun hw h hp => by
    rw [hw, Bool.true_and]
    exact hp.map es out h
  have never : ∀ {p : StoreProg (List (String × Json))}, r.call.writes = false → Ends p es out →
      p.Only StoreOp.quiet →
      renames es = if r.call.writes && out.isOk then 1 else 0 := fun hw h hp => by
    rw [renames_quiet hp h, hw]
    rfl
  unfold StoreRequest.body at h
  split at h <;> rename_i hcall
  · exact never (by rw [hcall]; rfl) h (reading_quiet.bind fun _ => Prog.only_ret)
  · exact never (by rw [hcall]; rfl) h reading_quiet
  · refine once (by rw [hcall]; rfl) h (withLock_once fun shared data => ⟨trivial, fun store => ?_⟩)
    exact lift_quiet.bind fun _ => touch_quiet.bind fun _ => Prog.only_ret
  · exact once (by rw [hcall]; rfl) h (withLock_once fun _ _ => touch_quiet.bind fun _ => Prog.only_ret)
  · exact once (by rw [hcall]; rfl) h (withLock_once fun _ _ => touch_quiet.bind fun _ => Prog.only_ret)
  · exact once (by rw [hcall]; rfl) h (withLock_once fun _ _ => touch_quiet.bind fun _ => Prog.only_ret)

end Counting

theorem onDisk_contents (initial : Option (Table String Json)) :
    (onDisk initial).contents = initial.getD ∅ := by
  cases initial <;> rfl

theorem lockInv_start (initial : Option (Table String Json)) : LockInv ⟨[], onDisk initial⟩ := by
  refine ⟨?_, ?_, ?_, ?_, ?_⟩
  · intro f hf
    obtain ⟨c, -, rfl⟩ := Option.map_eq_some_iff.mp hf
    exact Nat.one_pos
  · intro hd st hst
    cases hst
  · intro e he
    cases he
  · intro hd t hl
    cases hl
  · intro pre e post he
    simp at he

theorem storeInv_start {initial : Option (Table String Json)}
    (dates : KeepsDates dateImage (initial.getD ∅)) :
    StoreInv dateImage (initial.getD ∅) ⟨[], onDisk initial⟩ := by
  refine ⟨lockInv_start initial, fun hd _ => .inl ?_, ?_, ?_⟩
  · rintro ⟨hloaded, -⟩
    cases hloaded
  · rwa [onDisk_contents]
  · exact ⟨_, rfl, fun key => by rw [onDisk_contents]⟩

theorem sequentialWrites_run {initial : Option (Table String Json)}
    (dates : KeepsDates dateImage (initial.getD ∅)) {cfg : StoreConfig}
    (hr : Reach (storeSystem dateImage) (onDisk initial) cfg)
    (hok : cfg.hist.Always fun _ e => FailsHarmlessly dateImage e) :
    SequentialWrites (initial.getD ∅) cfg := by
  have inv := (storeUpheld.run (storeInv_start dates) hr hok).1
  exact ⟨inv.contents, inv.lock.ordered, fun i r out ht => storeBody_counts (hr.ends ht)⟩

/-- In every run whose writes fail harmlessly, if they fail, no update is lost. -/
theorem store_sequential (dateImage : String → Json) (initial : Option (Table String Json))
    (dates : KeepsDates dateImage (initial.getD ∅)) {cfg : StoreConfig}
    (hr : Reach (storeSystem dateImage) (onDisk initial) cfg)
    (hok : cfg.hist.Always fun _ e => FailsHarmlessly dateImage e) :
    SequentialWrites (initial.getD ∅) cfg :=
  sequentialWrites_run dates hr hok

def firstStore : StoreHandle := ⟨1, 0⟩
def otherStore : StoreHandle := ⟨2, 0⟩

/-- One call, run for `steps` commands as thread `i`. -/
def storeRun (i : ℕ) (hd : StoreHandle) (call : StoreCall) (steps : ℕ) :
    List (Action StoreRequest ℕ StoreInput) :=
  .begin ⟨hd, call⟩ :: List.replicate steps (.run i ⟨none⟩)

/-- Two stores write, each behind the other's back. -/
def twoStores : List (Action StoreRequest ℕ StoreInput) :=
  storeRun 0 firstStore (.put "a" (.num 1)) 23 ++ storeRun 1 otherStore (.put "b" (.num 2)) 21 ++
    storeRun 2 firstStore (.put "c" (.num 3)) 21

/-- Nothing fails, no update reads the file anew, and only numbers are written. -/
def plainWrite (_ : StoreHist) (e : StoreEntry) : Bool :=
  match e.op, e.res with
  | .tmp _, .error _ => false
  | .rename _ _, .error _ => false
  | .store _ (.read _ _ false), _ => match e.call.call with
    | .update _ _ => false
    | _ => true
  | .store _ (.serialize data _), _ => data.keys.all fun k => match data.lookup k with
    | some (.num _) => true
    | _ => false
  | _, _ => true

theorem plainWrite_harmless (h : StoreHist) (e : StoreEntry) (hp : plainWrite h e = true) :
    FailsHarmlessly Json.str e := by
  obtain ⟨i, r, op, inp, res, before, after⟩ := e
  cases op with
  | tmp step =>
    cases res with
    | ok u => cases step <;> trivial
    | error x => cases hp
  | rename contents attempt =>
    cases res with
    | ok u => trivial
    | error x => cases hp
  | store hd u =>
    cases u with
    | read st parsed adopt =>
      cases adopt with
      | true => trivial
      | false =>
        rintro ⟨key, mutate, x, hcall, -⟩
        simp [plainWrite, show r.call = _ from hcall] at hp
    | serialize data mutatedKey =>
      intro k v hv
      have hmem : k ∈ data.keys := AList.mem_keys.mp (AList.lookup_isSome.mp (by rw [hv]; rfl))
      have hk := List.all_eq_true.mp (show data.keys.all _ = true from hp) k hmem
      rw [hv] at hk
      cases v <;> simp_all [reviveDates]
    | _ => trivial
  | _ => trivial

theorem store_sequential_twoStores : ∃ cfg, Reach (storeSystem Json.str) (onDisk none) cfg ∧
    (doneWrites cfg.hist).length = 3 ∧ SequentialWrites ∅ cfg := by
  have hrun : (schedule (storeSystem Json.str) twoStores (Config.start (onDisk none))).any
      (fun cfg => (doneWrites cfg.hist).length = 3 && Hist.checkFrom plainWrite [] cfg.hist.events) =
      true := by decide
  obtain ⟨cfg, hr, hcheck⟩ := Reach.of_check hrun
  simp only [Bool.and_eq_true, decide_eq_true_eq] at hcheck
  refine ⟨cfg, hr, hcheck.1, store_sequential Json.str none (fun k v hv => ?_) hr
    (Hist.always_of_check plainWrite_harmless hcheck.2)⟩
  cases hv

/-- The same, but for an update that throws once the first store has seen the other's write. -/
def thrownUpdate : List (Action StoreRequest ℕ StoreInput) :=
  storeRun 0 firstStore (.put "a" (.num 1)) 23 ++ storeRun 1 otherStore (.put "b" (.num 2)) 21 ++
    storeRun 2 firstStore (.update "a" fun _ => .error ⟨none, "rejected"⟩) 8 ++
    storeRun 3 firstStore (.put "c" (.num 3)) 19

theorem store_losesUpdate : ∃ cfg, Reach (storeSystem Json.str) (onDisk none) cfg ∧
    ¬ SequentialWrites ∅ cfg := by
  have hrun : (schedule (storeSystem Json.str) thrownUpdate (Config.start (onDisk none))).any
      (fun cfg => (cfg.hist.shared.contents.lookup "b").isNone &&
        match (doneWrites cfg.hist).foldlM StoreCall.apply ∅ with
        | .ok c => (c.lookup "b").isSome
        | .error _ => false) = true := by decide
  obtain ⟨cfg, hr, hcheck⟩ := Reach.of_check hrun
  refine ⟨cfg, hr, fun hseq => ?_⟩
  obtain ⟨c, hc, hsame⟩ := hseq.contents
  simp only [hc, ← hsame, Bool.and_eq_true, Option.isNone_iff_eq_none] at hcheck
  simp [hcheck.1] at hcheck

end Wazir.Shared
