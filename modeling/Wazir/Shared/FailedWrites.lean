import Wazir.Shared.SequentialStore

/-! Failed writes. A key's text is cached before the file is touched, and a write that fails
afterwards leaves it in the cache. As long as the instance's snapshot does not hold that key, no
value that was never written gets into the file or out of the store. -/

namespace Wazir.Shared

open Wazir.Async

section Written

variable (dateImage : String → Json) (initial : Table String Json)

/-- The value was in the file at first or was written there by a call that sets the key, and
may have had its dates revived since. -/
inductive Written (h : StoreHist) (key : String) : Json → Prop
  | initial (v : Json) : initial.lookup key = some v → Written h key v
  | write (e : StoreEntry) (contents : Table String Json) (attempt : ℕ) (v : Json) :
      e ∈ h.entries → writeDone e = true → e.op = .rename contents attempt →
      e.call.call.sets = some key → contents.lookup key = some v → Written h key v
  | revived (v : Json) : Written h key v → Written h key (reviveDates dateImage v)

def AllWritten (data : Table String Json) (h : StoreHist) : Prop :=
  ∀ k v, data.lookup k = some v → Written dateImage initial h k v

/-- What no failed write has touched: the file holds exactly the writes that went through, a key
leaves it by a deletion that went through only, and an instance that is not writing reads nothing
else from the map that it trusts. -/
structure ExactWrites (cfg : StoreConfig) : Prop where
  sequential : SequentialWrites initial cfg
  removals : ∀ pre e post, cfg.hist.events = pre ++ .ran e :: post →
    ∀ key, e.before.contents.lookup key ≠ none → e.after.contents.lookup key = none →
      writeDone e = true ∧ (e.call.call = .delete key ∨ e.call.call = .clear)
  maps : ∀ hd, hd.process ∉ cfg.hist.dead →
    Settled hd cfg.hist.shared ∨ ∃ t, cfg.hist.shared.lock = some (hd, t)

/-- The condition on a command that makes a write fail: the map of its instance, if the next
operation trusts it, is the file's contents, and it has no value under a key whose new text is
already cached. -/
def FailsInStep (e : StoreEntry) : Prop :=
  match e.op, e.res with
  | .tmp .dir, .error _ => Settled e.call.handle e.before
  | .tmp _, .error _ => Settled e.call.handle e.before ∧ Unset e.call e.before
  | .rename _ attempt, .error x =>
    JsonFileStore.renamesAgain attempt x = false →
      Settled e.call.handle e.before ∧ Unset e.call e.before
  | _, _ => True

/-- What else could come between an instance and the file: a mutation that throws after the file
was read anew, and date strings that `Date` prints differently. -/
def OthersInStep (e : StoreEntry) : Prop :=
  match e.op, e.res with
  | .store hd (.read _ parsed false), store =>
    e.call.call.Throws dateImage parsed → store.loaded = true →
      ∀ k, (e.before.store hd).data.lookup k = parsed.lookup k
  | .store _ (.serialize data _), _ => KeepsDates dateImage data
  | _, _ => True

/-- The property: what the file holds and what calls return has been written; a call that
threw has written nothing; and if nothing else comes between, failed writes of any kind leave no
trace. -/
structure FailuresVanish (cfg : StoreConfig) : Prop where
  file : AllWritten dateImage initial cfg.hist.shared.contents cfg.hist
  reads : ∀ (i : ℕ) (r : StoreRequest) (entries : List (String × Json)),
    cfg.threads[i]? = some ⟨r, some (Prog.ret entries)⟩ → ∀ kv ∈ entries,
      Written dateImage initial cfg.hist kv.1 kv.2
  thrown : ∀ i (r : StoreRequest) (x : StoreError), cfg.threads[i]? = some ⟨r, some (Prog.raise x)⟩ →
    ∀ e ∈ cfg.hist.entriesOf i, writeDone e = false
  exact : KeepsDates dateImage initial →
    (cfg.hist.Always fun _ e => OthersInStep dateImage e) → ExactWrites initial cfg

/-- A write that fails after its text is made finds no value under its key in the instance's
snapshot. -/
def FailsUnset (e : StoreEntry) : Prop :=
  match e.op, e.res with
  | .tmp .dir, _ => True
  | .tmp _, .error _ => Unset e.call e.before
  | .rename _ attempt, .error x =>
    JsonFileStore.renamesAgain attempt x = false → Unset e.call e.before
  | _, _ => True

/-- The cached texts of a snapshot that is still trusted have been written. -/
def Clean (hd : StoreHandle) (h : StoreHist) : Prop :=
  (h.shared.store hd).Trusts h.shared.file →
    ∀ k v w, (h.shared.store hd).rawJsonByKey.lookup k = some v →
      (h.shared.store hd).data.lookup k = some w → Written dateImage initial h k v

structure WrittenInv (h : StoreHist) : Prop where
  lock : LockInv h
  file : AllWritten dateImage initial h.shared.contents h
  data : ∀ hd, AllWritten dateImage initial (h.shared.store hd).data h
  clean : ∀ hd, hd.process ∉ h.dead →
    Clean dateImage initial hd h ∨ ∃ t, h.shared.lock = some (hd, t)

/-- What others may do to the instance of a thread that holds the lock. -/
def KeptClean (hd : StoreHandle) (h h' : StoreHist) : Prop :=
  h'.shared.file = h.shared.file ∧
    ((h'.shared.store hd).rawJsonByKey = (h.shared.store hd).rawJsonByKey ∨
      (h'.shared.store hd).rawJsonByKey = ∅) ∧
    (Clean dateImage initial hd h → Clean dateImage initial hd h')

def writtenContract : Contract StoreOp StoreRes StoreRequest ℕ StoreInput StoreShared where
  Ok h := h.Always fun _ e => FailsUnset e
  Inv := WrittenInv dateImage initial
  Rely i r h h' := (r.handle.process ∉ h.dead → r.handle.process ∉ h'.dead) ∧
    h.shared.stamps ≤ h'.shared.stamps ∧
    (∀ k v, Written dateImage initial h k v → Written dateImage initial h' k v) ∧
    ∀ t, Holding i r t h → Holding i r t h' ∧ KeptClean dateImage initial r.handle h h'

end Written

variable {u : StoreUpdate} {hd : StoreHandle} {data : Table String Json} {v : Json}
  {inp : StoreInput} {k : String}

section Lemmas

variable {dateImage : String → Json} {initial : Table String Json} {h h' : StoreHist}

theorem Written.mono (hmem : ∀ e ∈ h.entries, e ∈ h'.entries) (hw : Written dateImage initial h k v) :
    Written dateImage initial h' k v := by
  induction hw with
  | initial v hv => exact .initial v hv
  | write e contents attempt v he hd hop hs hv => exact .write e contents attempt v (hmem e he) hd hop hs hv
  | revived v _ ih => exact .revived v ih

theorem Written.ran {i : ℕ} {r : StoreRequest} {op : StoreOp} {res : StoreRes op} {s : StoreShared}
    (hw : Written dateImage initial h k v) :
    Written dateImage initial (h.ran i r op inp res s) k v :=
  hw.mono fun e he => by
    rw [Hist.ran, Hist.entries_push_ran]
    exact List.mem_append_left _ he

theorem AllWritten.insert {key : String} (hd : AllWritten dateImage initial data h)
    (hv : Written dateImage initial h key v) :
    AllWritten dateImage initial (data.insert key v) h := by
  intro k w hw
  by_cases hk : k = key
  · subst hk
    rw [AList.lookup_insert, Option.some.injEq] at hw
    exact hw ▸ hv
  · rw [AList.lookup_insert_ne hk] at hw
    exact hd k w hw

theorem Written.shared {key : String} (hv : Written dateImage initial h key v) :
    Written dateImage initial h key (reviveShared dateImage v) := by
  cases v with
  | str s => exact hv
  | _ => exact hv.revived

/-- Dates are revived in place only. -/
structure Revives (store store' : JsonFileStore) : Prop where
  loaded : store'.loaded = store.loaded
  lastStat : store'.lastStat = store.lastStat
  raw : store'.rawJsonByKey = store.rawJsonByKey
  keys : ∀ k, store'.data.lookup k = none ↔ store.data.lookup k = none

theorem Revives.refl (store : JsonFileStore) : Revives store store := ⟨rfl, rfl, rfl, fun _ => .rfl⟩

theorem Revives.trans {a b c : JsonFileStore} (h₁ : Revives a b) (h₂ : Revives b c) : Revives a c :=
  ⟨h₂.loaded.trans h₁.loaded, h₂.lastStat.trans h₁.lastStat, h₂.raw.trans h₁.raw,
    fun k => (h₂.keys k).trans (h₁.keys k)⟩

theorem lookup_insert_none {key : String} {v w : Json} (h : data.lookup key = some v) (k : String) :
    (data.insert key w).lookup k = none ↔ data.lookup k = none := by
  by_cases hk : k = key
  · subst hk
    simp [h]
  · rw [AList.lookup_insert_ne hk]

theorem revives_key (store : JsonFileStore) (key : String) :
    Revives store (store.ensureKeyRevived dateImage key) := by
  unfold JsonFileStore.ensureKeyRevived
  split
  · exact .refl _
  · rename_i v hv
    split_ifs
    · exact .refl _
    · exact ⟨rfl, rfl, rfl, lookup_insert_none hv⟩

theorem allWritten_key {store : JsonFileStore} (key : String)
    (hd : AllWritten dateImage initial store.data h) :
    AllWritten dateImage initial (store.ensureKeyRevived dateImage key).data h := by
  unfold JsonFileStore.ensureKeyRevived
  split
  · exact hd
  · rename_i v hv
    split_ifs
    · exact hd
    · exact hd.insert (hd key v hv).revived

/-- What an update puts into the snapshot has been written if what it brings along has. -/
theorem allWritten_update {store : JsonFileStore} (hd : AllWritten dateImage initial store.data h)
    (hread : ∀ st parsed, u = .read st parsed true → AllWritten dateImage initial parsed h)
    (hadopt : ∀ data, u = .adopted data → AllWritten dateImage initial data h) :
    AllWritten dateImage initial (u.apply dateImage store).data h := by
  cases u with
  | noFile adopt =>
    cases adopt with
    | false => exact hd
    | true =>
      intro k v hv
      cases hv
  | read st parsed adopt =>
    cases adopt with
    | false => exact hd
    | true => exact hread st parsed rfl
  | reviveKey key => exact allWritten_key key hd
  | reviveAll head =>
    exact foldl_ensureKeyRevived (P := fun t => AllWritten dateImage initial t.data h)
      (fun _ key ht => allWritten_key key ht) _ hd
  | updating key shared =>
    simp only [StoreUpdate.apply]
    split
    · rename_i v hv
      split_ifs
      · exact hd.insert (hd key v hv).shared
      · exact hd
    · exact hd
  | adopted data => exact hadopt data rfl
  | _ => exact hd

/-- A reader keeps the cached texts of the values, or drops all. -/
theorem reader_update (store : JsonFileStore) (hu : u.exclusive = false) :
    Revives store (u.apply dateImage store) ∨ (u.apply dateImage store).rawJsonByKey = ∅ ∨
      (u.apply dateImage store).lastStat = none ∧
        (u.apply dateImage store).rawJsonByKey = store.rawJsonByKey := by
  cases u with
  | noFile adopt => cases adopt <;> exact .inr (.inl rfl)
  | read st parsed adopt =>
    cases adopt with
    | false => cases hu
    | true => exact .inr (.inl rfl)
  | readFailed => exact .inr (.inr ⟨rfl, rfl⟩)
  | reviveKey key => exact .inl (revives_key store key)
  | reviveAll head =>
    exact .inl (foldl_ensureKeyRevived (P := Revives store)
      (fun _ key ht => ht.trans (revives_key _ key)) _ (.refl store))
  | updating key shared =>
    left
    simp only [StoreUpdate.apply]
    split
    · rename_i v hv
      split_ifs
      · exact ⟨rfl, rfl, rfl, lookup_insert_none hv⟩
      · exact .refl _
    · exact .refl _
  | serialize data mutatedKey => cases hu
  | statted st => cases hu
  | adopted data => cases hu
  | _ => exact .inl ⟨rfl, rfl, rfl, fun _ => .rfl⟩

/-- Cleanness depends on the file, on the instance and on what has been written so far. -/
theorem Clean.of_revives (hc : Clean dateImage initial hd h)
    (hfile : h'.shared.file = h.shared.file)
    (hstore : Revives (h.shared.store hd) (h'.shared.store hd))
    (hw : ∀ k v, Written dateImage initial h k v → Written dateImage initial h' k v) :
    Clean dateImage initial hd h' := by
  rintro ⟨hl, f, hf, hst⟩ k v w hv hdata
  have htrust : (h.shared.store hd).Trusts h.shared.file :=
    ⟨hstore.loaded ▸ hl, f, hfile ▸ hf, hstore.lastStat ▸ hst⟩
  cases hold : (h.shared.store hd).data.lookup k with
  | none =>
    rw [(hstore.keys k).mpr hold] at hdata
    cases hdata
  | some w' => exact hw k v (hc htrust k v w' (hstore.raw ▸ hv) hold)

theorem Clean.of_stale
    (hst : ∀ f, h.shared.file = some f → (h.shared.store hd).lastStat ≠ some f.stat) :
    Clean dateImage initial hd h := by
  rintro ⟨-, f, hf, heq⟩
  exact absurd heq (hst f hf)

theorem Clean.of_empty (hraw : (h.shared.store hd).rawJsonByKey = ∅) :
    Clean dateImage initial hd h := by
  intro _ k v w hv
  rw [hraw] at hv
  cases hv

/-- What a thread must know for its next command. -/
def WrittenPrepared (dateImage : String → Json) (initial : Table String Json) (i : ℕ)
    (r : StoreRequest) (h : StoreHist) : StoreOp → Prop
  | .release token => Holding i r token h ∧ Clean dateImage initial r.handle h
  | .rename contents _ => ∀ k v, contents.lookup k = some v →
    r.call.sets = some k ∨ Written dateImage initial h k v
  | .store _ (.read _ parsed true) => AllWritten dateImage initial parsed h
  | .store _ (.adopted data) => AllWritten dateImage initial data h
  | _ => True

section Ran

variable {i : ℕ} {r : StoreRequest} {op : StoreOp} {inp : StoreInput} {res : StoreRes op}
  {s : StoreShared}

/-- A command that changes no instance's snapshot and writes no new contents. -/
theorem writtenInv_quiet (inv : WrittenInv dateImage initial h)
    (lock : LockInv (h.ran i r op inp res s)) (hcontents : s.contents = h.shared.contents)
    (hstores : ∀ hd, s.store hd = h.shared.store hd)
    (hclean : ∀ hd, hd.process ∉ h.dead →
      Clean dateImage initial hd (h.ran i r op inp res s) ∨ ∃ t, s.lock = some (hd, t)) :
    WrittenInv dateImage initial (h.ran i r op inp res s) := by
  refine ⟨lock, fun k v hv => ?_, fun hd k v hv => ?_, ?_⟩
  · exact (inv.file k v (by simpa [Hist.ran, hcontents] using hv)).ran
  · exact (inv.data hd k v (by simpa [Hist.ran, hstores] using hv)).ran
  · simpa [Hist.ran] using hclean

/-- Nothing changes but the history. -/
theorem Clean.ran (hc : Clean dateImage initial hd h) (hfile : s.file = h.shared.file)
    (hstore : s.store hd = h.shared.store hd) :
    Clean dateImage initial hd (h.ran i r op inp res s) := by
  refine hc.of_revives hfile ?_ fun k v hw => hw.ran
  rw [Hist.ran, Hist.push_shared, hstore]
  exact .refl _

/-- A reader leaves an instance clean that was so. -/
theorem Clean.reader {store : JsonFileStore} (hc : Clean dateImage initial r.handle h)
    (hu : u.exclusive = false) :
    Clean dateImage initial r.handle (h.ran i r (.store r.handle u) inp store
      (h.shared.setStore r.handle (u.apply dateImage (h.shared.store r.handle)))) := by
  rcases reader_update (h.shared.store r.handle) hu with hr | hr | ⟨hr, -⟩
  · refine hc.of_revives rfl ?_ fun k v hw => hw.ran
    rw [Hist.ran, Hist.push_shared, store_setStore]
    exact hr
  · refine .of_empty ?_
    rw [Hist.ran, Hist.push_shared, store_setStore]
    exact hr
  · refine .of_stale fun f _ => ?_
    rw [Hist.ran, Hist.push_shared, store_setStore, hr]
    simp

theorem written_done {contents : Table String Json} {attempt : ℕ}
    (hp : ∀ k v, contents.lookup k = some v → r.call.sets = some k ∨ Written dateImage initial h k v)
    (hv : contents.lookup k = some v) : Written dateImage initial
      (h.ran i r (.rename contents attempt) inp (.ok ()) s) k v := by
  rcases hp k v hv with hs | hw
  · refine .write ⟨i, r, .rename contents attempt, inp, .ok (), h.shared, s⟩ contents attempt v ?_ rfl
      rfl hs hv
    rw [Hist.ran, Hist.entries_push_ran]
    exact List.mem_append_right _ (List.mem_singleton.mpr rfl)
  · exact hw.ran

theorem writtenInv_ran (inv : WrittenInv dateImage initial h)
    (hx : storeExec dateImage op inp h.shared = some (res, s)) (hl : Locked i r h op)
    (hp : WrittenPrepared dateImage initial i r h op) :
    WrittenInv dateImage initial (h.ran i r op inp res s) := by
  have lock := lockInv_ran inv.lock hx hl
  have same : s.file = h.shared.file → (∀ hd, s.store hd = h.shared.store hd) →
      s.lock = h.shared.lock → WrittenInv dateImage initial (h.ran i r op inp res s) :=
    fun hfile hstores hlock => writtenInv_quiet inv lock (by simp [StoreShared.contents, hfile])
      hstores fun hd alive => (inv.clean hd alive).imp (fun hc => hc.ran hfile (hstores hd))
        fun ⟨t, ht⟩ => ⟨t, hlock.trans ht⟩
  cases op with
  | acquire hd =>
    simp only [storeExec] at hx
    split at hx
    · cases hx
      exact same rfl (fun _ => rfl) rfl
    · split_ifs at hx with hfree
      cases hx
      refine writtenInv_quiet inv lock rfl (fun _ => rfl) fun hd' alive => .inl ?_
      rcases inv.clean hd' alive with hc | ⟨t, ht⟩
      · exact hc.ran rfl rfl
      · simp [ht] at hfree
  | release token =>
    cases hx
    obtain ⟨hh, hclean⟩ := hp
    split_ifs at lock same ⊢
    · refine writtenInv_quiet inv lock rfl (fun _ => rfl) fun hd' alive => .inl ?_
      rcases inv.clean hd' alive with hc | ⟨t, ht⟩
      · exact hc.ran rfl rfl
      · cases ht.symm.trans hh.2
        exact hclean.ran rfl rfl
    · exact same rfl (fun _ => rfl) rfl
  | rename contents attempt =>
    simp only [storeExec] at hx
    split at hx
    · cases hx
      exact same rfl (fun _ => rfl) rfl
    · cases hx
      refine ⟨lock, fun k v hv => written_done hp hv, fun hd k v hv => (inv.data hd k v hv).ran,
        fun hd _ => .inl (.of_stale fun f hf hst => ?_)⟩
      cases hf
      exact absurd (inv.lock.lastStat hd _ hst) (lt_irrefl _)
  | chmod =>
    cases hx
    split_ifs at lock same ⊢
    · exact same rfl (fun _ => rfl) rfl
    · refine writtenInv_quiet inv lock ?_ (fun _ => rfl) fun hd _ => .inl (.of_stale fun f hf hst => ?_)
      · cases hf : h.shared.file <;> simp [StoreShared.contents, hf]
      · obtain ⟨f', -, rfl⟩ := Option.map_eq_some_iff.mp hf
        exact absurd (inv.lock.lastStat hd _ hst) (lt_irrefl _)
  | store hd u =>
    cases hx
    obtain ⟨rfl, hexcl, -⟩ := hl
    refine ⟨lock, fun k v hv => (inv.file k v hv).ran, fun hd' k v hv => ?_, fun hd' alive => ?_⟩
    · by_cases hne : hd' = r.handle
      · subst hne
        rw [Hist.ran, Hist.push_shared, store_setStore] at hv
        refine (allWritten_update (inv.data r.handle) ?_ ?_ k v hv).ran
        · rintro st parsed rfl
          exact hp
        · rintro data rfl
          exact hp
      · rw [Hist.ran, Hist.push_shared, store_setStore_ne hne] at hv
        exact (inv.data hd' k v hv).ran
    · rw [Hist.ran, Hist.dead_push_ran] at alive
      rcases inv.clean hd' alive with hc | ht
      · by_cases hne : hd' = r.handle
        · subst hne
          cases hu : u.exclusive with
          | true =>
            obtain ⟨t, ht⟩ := hexcl hu
            exact .inr ⟨t, ht.2⟩
          | false => exact .inl (hc.reader hu)
        · exact .inl (hc.ran rfl (store_setStore_ne hne))
      · exact .inr ht
  | _ =>
    cases hx
    exact same rfl (fun _ => rfl) rfl

theorem keptClean_same (hfile : s.file = h.shared.file) (hstore : s.store hd = h.shared.store hd) :
    KeptClean dateImage initial hd h (h.ran i r op inp res s) :=
  ⟨hfile, .inl (by rw [Hist.ran, Hist.push_shared, hstore]), fun hc => hc.ran hfile hstore⟩

theorem keptClean_of_idle (hx : storeExec dateImage op inp h.shared = some (res, s))
    (hl : Locked i r h op) (hop : op.idle) (hd : StoreHandle) :
    KeptClean dateImage initial hd h (h.ran i r op inp res s) := by
  cases op with
  | store hd' u =>
    cases hx
    obtain ⟨rfl, -, -⟩ := hl
    by_cases hne : hd = r.handle
    · subst hne
      refine ⟨rfl, ?_, fun hc => hc.reader hop⟩
      rw [Hist.ran, Hist.push_shared, store_setStore]
      exact raw_update hop
    · exact keptClean_same rfl (store_setStore_ne hne)
  | acquire hd => exact hop.elim
  | release token => exact hop.elim
  | rename contents attempt => exact hop.elim
  | chmod => exact hop.elim
  | _ =>
    cases hx
    exact keptClean_same rfl rfl

theorem writtenRely_ran (inv : WrittenInv dateImage initial h)
    (hx : storeExec dateImage op inp h.shared = some (res, s)) (hl : Locked i r h op)
    {j : ℕ} {d : StoreRequest} (hij : j ≠ i) :
    (writtenContract dateImage initial).Rely j d h (h.ran i r op inp res s) := by
  refine ⟨fun alive => by simpa [Hist.ran] using alive, (stamps_ran hx).1, fun k v hw => hw.ran,
    fun t hj => ?_⟩
  obtain ⟨hkept, hsame⟩ := hj.others inv.lock hx hl hij
  refine ⟨hkept, ?_⟩
  rcases exclusive_or_idle hx hl with ⟨t', hi⟩ | hstore | hop
  · exact absurd (hj.same inv.lock hi) hij
  · exact keptClean_same hsame (hstore _)
  · exact keptClean_of_idle hx hl hop _

end Ran

end Lemmas

/-! The procedures. -/

variable {h : StoreHist} {P : StoreHist → Prop} {mutatedKey : String} {st : Option ℕ}

section Safety

variable {dateImage : String → Json} {initial : Table String Json} {α : Type} {i : ℕ}
  {r : StoreRequest} {Q : Except StoreError α → StoreHist → Prop}

variable (dateImage initial i r) in
abbrev WrittenSafe (Q : Except StoreError α → StoreHist → Prop) (p : StoreProg α) (h : StoreHist) : Prop :=
  Safe (storeSystem dateImage) (writtenContract dateImage initial) i r Q p h

theorem written_call {A : StoreHist → Prop} {op : StoreOp} {next : StoreRes op → StoreProg α}
    (stable : Stable (writtenContract dateImage initial) i r A)
    (locked : ∀ h, A h → Locked i r h op)
    (prepared : ∀ h, A h → WrittenPrepared dateImage initial i r h op)
    (rest : ∀ h inp res s, A h → WrittenInv dateImage initial h →
      storeExec dateImage op inp h.shared = some (res, s) →
      FailsUnset ⟨i, r, op, inp, res, h.shared, s⟩ →
      WrittenSafe dateImage initial i r Q (next res) (h.ran i r op inp res s)) (ha : A h) :
    WrittenSafe dateImage initial i r Q (.call op next) h := by
  intro h' inp res s hrely hinv hx hok
  have ha' := stable h h' hrely ha
  have halways : (h'.ran i r op inp res s).Always fun _ e => FailsUnset e := hok
  exact ⟨writtenInv_ran hinv hx (locked h' ha') (prepared h' ha'),
    fun j d hij => writtenRely_ran hinv hx (locked h' ha') hij,
    rest h' inp res s ha' hinv hx (halways.last rfl)⟩

/-- The thread holds the lock, and the history is as `P` says. -/
def HeldIn (i : ℕ) (r : StoreRequest) (t : ℕ) (P : StoreHist → Prop) (h : StoreHist) : Prop :=
  Holding i r t h ∧ P h

/-- `P` survives what others may do, and more history. -/
def KeepsIn (dateImage : String → Json) (initial : Table String Json) (hd : StoreHandle)
    (P : StoreHist → Prop) : Prop :=
  ∀ h h', KeptClean dateImage initial hd h h' →
    (∀ k v, Written dateImage initial h k v → Written dateImage initial h' k v) → P h → P h'

theorem HeldIn.stable {t : ℕ} (keeps : KeepsIn dateImage initial r.handle P) :
    Stable (writtenContract dateImage initial) i r (HeldIn i r t P) := by
  rintro h h' ⟨-, -, hw, hlock⟩ ⟨hh, hp⟩
  obtain ⟨hh', hkept⟩ := hlock t hh
  exact ⟨hh', keeps _ _ hkept hw hp⟩

theorem HeldIn.idle {t : ℕ} {op : StoreOp} {res : StoreRes op} {s : StoreShared}
    (keeps : KeepsIn dateImage initial r.handle P) (ha : HeldIn i r t P h)
    (hx : storeExec dateImage op inp h.shared = some (res, s)) (hl : Locked i r h op)
    (hop : op.idle) : HeldIn i r t P (h.ran i r op inp res s) := by
  refine ⟨ha.1.own hx ?_, keeps _ _ (keptClean_of_idle hx hl hop r.handle) (fun _ _ hw => hw.ran) ha.2⟩
  rintro token rfl
  exact hop

/-! What is known at the points of a write. -/

/-- The map in hand and the texts cached for it have been written. -/
def CopiedIn (dateImage : String → Json) (initial : Table String Json) (hd : StoreHandle)
    (data : Table String Json) (h : StoreHist) : Prop :=
  AllWritten dateImage initial data h ∧ Clean dateImage initial hd h ∧
    ∀ k v w, (h.shared.store hd).rawJsonByKey.lookup k = some v → data.lookup k = some w →
      Written dateImage initial h k v

/-- So it is after the change, but for the key of the call. -/
def MutatedIn (dateImage : String → Json) (initial : Table String Json) (r : StoreRequest)
    (new : Table String Json) (h : StoreHist) : Prop :=
  Clean dateImage initial r.handle h ∧ ∀ k, r.call.sets ≠ some k → ∀ v, new.lookup k = some v →
    Written dateImage initial h k v ∧ ∀ w, (h.shared.store r.handle).rawJsonByKey.lookup k = some w →
      Written dateImage initial h k w

/-- And so is the text. -/
def SerializedIn (dateImage : String → Json) (initial : Table String Json) (r : StoreRequest)
    (new text : Table String Json) (h : StoreHist) : Prop :=
  (∀ k v, text.lookup k = some v → r.call.sets = some k ∨ Written dateImage initial h k v) ∧
    (∀ k v, new.lookup k = some v → text.lookup k = some v ∨ Written dateImage initial h k v) ∧
    ∀ k v, (h.shared.store r.handle).rawJsonByKey.lookup k = some v → text.lookup k = some v

/-- In the file, everything has been. -/
def RenamedIn (dateImage : String → Json) (initial : Table String Json) (hd : StoreHandle)
    (new : Table String Json) (h : StoreHist) : Prop :=
  AllWritten dateImage initial new h ∧ Clean dateImage initial hd h ∧
    ∀ k v, (h.shared.store hd).rawJsonByKey.lookup k = some v → Written dateImage initial h k v

section Keeps

variable {hd : StoreHandle} {h h' : StoreHist}

theorem KeptClean.raw (hk : KeptClean dateImage initial hd h h')
    (hv : (h'.shared.store hd).rawJsonByKey.lookup k = some v) :
    (h.shared.store hd).rawJsonByKey.lookup k = some v := by
  rcases hk.2.1 with hr | hr
  · rwa [hr] at hv
  · rw [hr] at hv
    cases hv

theorem keepsIn_clean : KeepsIn dateImage initial hd (Clean dateImage initial hd) :=
  fun _ _ hk _ => hk.2.2

theorem keepsIn_copied :
    KeepsIn dateImage initial hd (CopiedIn dateImage initial hd data) := fun _ _ hk hw hp =>
  ⟨fun k v hv => hw k v (hp.1 k v hv), hk.2.2 hp.2.1,
    fun k v w hv hdata => hw k v (hp.2.2 k v w (hk.raw hv) hdata)⟩

theorem keepsIn_mutated {new : Table String Json} :
    KeepsIn dateImage initial r.handle (MutatedIn dateImage initial r new) := fun _ _ hk hw hp =>
  ⟨hk.2.2 hp.1, fun k hs v hv => ⟨hw k v (hp.2 k hs v hv).1,
    fun w hr => hw k w ((hp.2 k hs v hv).2 w (hk.raw hr))⟩⟩

theorem keepsIn_serialized {new text : Table String Json} :
    KeepsIn dateImage initial r.handle (SerializedIn dateImage initial r new text) :=
  fun _ _ hk hw hp => ⟨fun k v hv => (hp.1 k v hv).imp_right (hw k v),
    fun k v hv => (hp.2.1 k v hv).imp_right (hw k v), fun k v hv => hp.2.2 k v (hk.raw hv)⟩

theorem keepsIn_renamed {new : Table String Json} :
    KeepsIn dateImage initial hd (RenamedIn dateImage initial hd new) := fun _ _ hk hw hp =>
  ⟨fun k v hv => hw k v (hp.1 k v hv), hk.2.2 hp.2.1, fun k v hv => hw k v (hp.2.2 k v (hk.raw hv))⟩

end Keeps

theorem MutatedIn.of_copied {data new : Table String Json}
    (hp : CopiedIn dateImage initial r.handle data h)
    (hoff : ∀ k v, r.call.sets ≠ some k → new.lookup k = some v → data.lookup k = some v) :
    MutatedIn dateImage initial r new h :=
  ⟨hp.2.1, fun k hs v hv => ⟨hp.1 k v (hoff k v hs hv), fun w hr => hp.2.2 k w v hr (hoff k v hs hv)⟩⟩

theorem SerializedIn.of_mutated {new : Table String Json}
    (hkey : ∀ key, r.call.sets = some key → key = mutatedKey)
    (hp : MutatedIn dateImage initial r new h) :
    let store := h.shared.store r.handle
    let text := serializeMap store.rawJsonByKey new mutatedKey
    SerializedIn dateImage initial r new text
      (h.ran i r (.store r.handle (.serialize new mutatedKey)) inp store
        (h.shared.setStore r.handle { store with rawJsonByKey := text })) := by
  have off : ∀ k v, new.lookup k = some v → r.call.sets = some k ∨
      Written dateImage initial h k v := fun k v hv => by
    by_cases hs : r.call.sets = some k
    · exact .inl hs
    · exact .inr (hp.2 k hs v hv).1
  refine ⟨fun k v hv => ?_, fun k v hv => ?_, fun k v hv => ?_⟩
  · rcases lookup_serializeMap hv with hnew | ⟨hne, hmem, hraw⟩
    · exact (off k v hnew).imp_right Written.ran
    · obtain ⟨w, hw⟩ := Option.isSome_iff_exists.mp (AList.lookup_isSome.mpr hmem)
      exact .inr ((hp.2 k (fun hs => hne (hkey k hs)) w hw).2 v hraw).ran
  · rcases off k v hv with hs | hw
    · left
      have hmem : k ∈ serializeMap (h.shared.store r.handle).rawJsonByKey new mutatedKey :=
        mem_serializeMap.mpr (AList.lookup_isSome.mp (by rw [hv]; rfl))
      obtain ⟨w, hw⟩ := Option.isSome_iff_exists.mp (AList.lookup_isSome.mpr hmem)
      rcases lookup_serializeMap hw with hnew | ⟨hne, -, -⟩
      · exact hw.trans (hnew.symm.trans hv)
      · exact absurd (hkey k hs) hne
    · exact .inr hw.ran
  · rwa [Hist.ran, Hist.push_shared, store_setStore] at hv

/-- A text under a key that the snapshot lacks is never used. -/
theorem SerializedIn.clean {new text : Table String Json}
    (hp : SerializedIn dateImage initial r new text h) (hu : Unset r h.shared) :
    Clean dateImage initial r.handle h := by
  intro htrust k v w hv hw
  rcases hp.1 k v (hp.2.2 k v hv) with hs | hwritten
  · have := hu htrust k hs
    rw [hw] at this
    cases this
  · exact hwritten

theorem belowIn_stable :
    Stable (writtenContract dateImage initial) i r (Below st) :=
  fun _ _ hr hb n hn => lt_of_lt_of_le (hb n hn) hr.2.1

/-- A command of an instance that brings nothing along. -/
def StoreUpdate.plain (u : StoreUpdate) : Prop :=
  u.exclusive = false ∧ u.stat = none ∧ ∀ st parsed, u ≠ .read st parsed true

theorem StoreUpdate.plain.locked (hu : u.plain) (h : StoreHist) :
    Locked i r h (.store r.handle u) := ⟨rfl, by simp [hu.1], by simp [hu.2.1]⟩

theorem StoreUpdate.plain.prepared (hu : u.plain) (h : StoreHist) :
    WrittenPrepared dateImage initial i r h (.store r.handle u) := by
  cases u with
  | read st parsed adopt =>
    cases adopt with
    | false => trivial
    | true => exact absurd rfl (hu.2.2 st parsed)
  | adopted data => cases hu.1
  | _ => trivial

section Writer

variable {t : ℕ}

/-- The outcome of a step inside the lock: a failure leaves the instance clean. -/
def OutcomeIn (dateImage : String → Json) (initial : Table String Json) (i : ℕ) (r : StoreRequest)
    (t : ℕ) (Q : α → StoreHist → Prop) : Except StoreError α → StoreHist → Prop
  | .ok a, h => Q a h
  | .error _, h => HeldIn i r t (Clean dateImage initial r.handle) h

theorem plain_heldIn {next : JsonFileStore → StoreProg α} (hu : u.plain)
    (keeps : KeepsIn dateImage initial r.handle P)
    (rest : ∀ store h, HeldIn i r t P h → WrittenSafe dateImage initial i r Q (next store) h)
    (ha : HeldIn i r t P h) :
    WrittenSafe dateImage initial i r Q (.call (.store r.handle u) next) h :=
  written_call (HeldIn.stable keeps) (fun h _ => hu.locked h) (fun h _ => hu.prepared h)
    (fun h _ _ _ ha _ hx _ => rest _ _ (ha.idle keeps hx (hu.locked h) hu.1)) ha

theorem currentStat_heldIn (keeps : KeepsIn dateImage initial r.handle P) (ha : HeldIn i r t P h) :
    WrittenSafe dateImage initial i r
      (fun out h => match out with
        | .ok st => HeldIn i r t (fun h => P h ∧ h.shared.file.map StoredFile.stat = st) h ∧ Below st h
        | .error _ => HeldIn i r t P h)
      (JsonFileStore.currentStat r.handle) h := by
  have keeps' : ∀ st, KeepsIn dateImage initial r.handle fun h =>
      P h ∧ h.shared.file.map StoredFile.stat = st :=
    fun st h h' hk hw hp => ⟨keeps h h' hk hw hp.1, by rw [hk.1]; exact hp.2⟩
  refine written_call (HeldIn.stable keeps) (fun _ _ => trivial) (fun _ _ => trivial)
    (fun h inp res s ha inv hx _ => ?_) ha
  have ha' := ha.idle keeps hx trivial trivial
  cases res with
  | error e => exact ha'
  | ok st =>
    obtain ⟨hst, hs⟩ : guarded inp.fault (h.shared.file.map StoredFile.stat) = .ok st ∧
        h.shared = s := by simpa [storeExec] using hx
    have hstat := guarded_ok hst
    subst hs
    have hb := (hstat ▸ below_stat inv.lock : Below st h).ran (i := i) (r := r) hx
    cases st with
    | some st => exact ⟨⟨ha'.1, ha'.2, hstat⟩, hb⟩
    | none =>
      refine plain_heldIn ⟨rfl, rfl, by simp⟩ (keeps' none) (fun store h ha => ?_)
        ⟨ha'.1, ha'.2, hstat⟩
      split_ifs
      · exact ⟨ha.1, ha.2.1⟩
      · exact ⟨ha, fun n hn => by cases hn⟩

theorem readFailed_heldIn {e : StoreError} {Q : α → StoreHist → Prop}
    (ha : HeldIn i r t (Clean dateImage initial r.handle) h) :
    WrittenSafe dateImage initial i r (OutcomeIn dateImage initial i r t Q)
      ((JsonFileStore.touch r.handle .readFailed).bind fun _ => .raise e) h :=
  plain_heldIn ⟨rfl, rfl, by simp⟩ keepsIn_clean (fun _ _ ha => ha) ha

theorem noFile_heldIn (ha : HeldIn i r t (Clean dateImage initial r.handle) h) :
    WrittenSafe dateImage initial i r (OutcomeIn dateImage initial i r t fun data =>
        HeldIn i r t (CopiedIn dateImage initial r.handle data))
      ((JsonFileStore.touch r.handle (.noFile false)).bind fun _ => .ret ∅) h := by
  refine plain_heldIn ⟨rfl, rfl, by simp⟩ keepsIn_clean (fun _ h ha => ⟨ha.1, ?_, ha.2, ?_⟩) ha
  · rintro k v ⟨⟩
  · rintro k v w - ⟨⟩

theorem readKnown_heldIn {known : Option ℕ} (ha : HeldIn i r t (Clean dateImage initial r.handle) h)
    (hb : Below known h) :
    WrittenSafe dateImage initial i r (OutcomeIn dateImage initial i r t fun data =>
        HeldIn i r t (CopiedIn dateImage initial r.handle data))
      (JsonFileStore.readKnown r.handle false known) h := by
  cases known with
  | none => exact noFile_heldIn ha
  | some n =>
    refine written_call ((HeldIn.stable keepsIn_clean).and belowIn_stable) (fun _ _ => trivial)
      (fun _ _ => trivial) (fun h inp res s ha inv hx _ => ?_) ⟨ha, hb⟩
    have ha' := ha.1.idle keepsIn_clean hx trivial trivial
    have hb' := ha.2.ran (i := i) (r := r) hx
    cases res with
    | error e => exact readFailed_heldIn ha'
    | ok parsed =>
      cases parsed with
      | none =>
        refine plain_heldIn ⟨rfl, rfl, by simp⟩ keepsIn_clean (fun store h ha => ?_) ha'
        split_ifs
        · exact readFailed_heldIn ha
        · exact noFile_heldIn ha
      | some parsed =>
        obtain ⟨hparsed, rfl⟩ : guarded inp.fault (h.shared.file.map StoredFile.contents) =
            .ok (some parsed) ∧ h.shared = s := by simpa [storeExec] using hx
        have hwritten : AllWritten dateImage initial parsed h := fun k v hv =>
          inv.file k v (by simp [StoreShared.contents, guarded_ok hparsed, hv])
        have keeps : KeepsIn dateImage initial r.handle fun h => AllWritten dateImage initial parsed h :=
          fun _ _ _ hw hp k v hv => hw k v (hp k v hv)
        refine written_call ((HeldIn.stable keeps).and belowIn_stable)
          (fun h ha => ⟨rfl, fun _ => ⟨t, ha.1.1⟩, ha.2⟩) (fun _ _ => trivial)
          (fun h inp res s ha inv hx _ => ?_) ⟨⟨ha'.1, fun k v hv => (hwritten k v hv).ran⟩, hb'⟩
        have hown := ha.1.1.own hx (by simp)
        have hw := ha.1.2
        cases hx
        refine ⟨hown, fun k v hv => (hw k v hv).ran, .of_empty ?_, fun k v w hv => ?_⟩
        · simp [Hist.ran, StoreUpdate.apply, JsonFileStore.forget]
        · simp only [Hist.ran, Hist.push_shared, store_setStore] at hv
          cases hv

theorem readFromDisk_heldIn (ha : HeldIn i r t (Clean dateImage initial r.handle) h)
    (hb : Below st h) :
    WrittenSafe dateImage initial i r (OutcomeIn dateImage initial i r t fun data =>
        HeldIn i r t (CopiedIn dateImage initial r.handle data))
      (JsonFileStore.readFromDisk r.handle st false) h := by
  cases st with
  | some n => exact readKnown_heldIn ha hb
  | none =>
    refine Safe.bind (R := OutcomeIn dateImage initial i r t fun st h =>
        HeldIn i r t (Clean dateImage initial r.handle) h ∧ Below st h)
      ((currentStat_heldIn keepsIn_clean ha).settle fun out h hout => ?_)
      (fun st h hst => readKnown_heldIn hst.1 hst.2) fun _ _ he => he
    cases out with
    | ok st => exact ⟨⟨hout.1.1, hout.1.2.1⟩, hout.2⟩
    | error e => exact readFailed_heldIn hout

theorem edit_heldIn {data new : Table String Json} (hu : u.plain)
    (hoff : ∀ k v, r.call.sets ≠ some k → new.lookup k = some v → data.lookup k = some v)
    (ha : HeldIn i r t (CopiedIn dateImage initial r.handle data) h) :
    WrittenSafe dateImage initial i r
      (OutcomeIn dateImage initial i r t fun new => HeldIn i r t (MutatedIn dateImage initial r new))
      ((JsonFileStore.touch r.handle u).bind fun _ => .ret new) h :=
  plain_heldIn hu keepsIn_copied (fun _ _ ha => ⟨ha.1, .of_copied ha.2 hoff⟩) ha

theorem update_heldIn {key : String} {mutate : Option Json → Except StoreError Json} {shared : Bool}
    (hcall : r.call = .update key mutate)
    (ha : HeldIn i r t (CopiedIn dateImage initial r.handle data) h) :
    WrittenSafe dateImage initial i r
      (OutcomeIn dateImage initial i r t fun new => HeldIn i r t (MutatedIn dateImage initial r new))
      (.call (.store r.handle (.updating key shared)) fun store => do
        let value ← JsonFileStore.lift (mutate (store.revived dateImage data key))
        JsonFileStore.touch r.handle (.addRevived key)
        return data.insert key value) h := by
  refine plain_heldIn ⟨rfl, rfl, by simp⟩ keepsIn_copied (fun store h ha => ?_) ha
  cases mutate (store.revived dateImage data key) with
  | error x => exact ⟨ha.1, ha.2.2.1⟩
  | ok value =>
    refine edit_heldIn ⟨rfl, rfl, by simp⟩ (fun k v hs hv => ?_) ha
    rwa [AList.lookup_insert_ne fun hk => hs (by rw [hcall, hk]; rfl)] at hv

theorem tmpStep_heldIn {step : TmpStep} (keeps : KeepsIn dateImage initial r.handle P)
    (hfail : ∀ h inp (x : StoreError), P h →
      FailsUnset ⟨i, r, .tmp step, inp, .error x, h.shared, h.shared⟩ →
      Clean dateImage initial r.handle h) (ha : HeldIn i r t P h) :
    WrittenSafe dateImage initial i r
      (OutcomeIn dateImage initial i r t fun _ => HeldIn i r t P) (JsonFileStore.tmpStep step) h := by
  refine written_call (HeldIn.stable keeps) (fun _ _ => trivial) (fun _ _ => trivial)
    (fun h inp res s ha inv hx hf => ?_) ha
  have ha' := ha.idle keeps hx trivial trivial
  cases res with
  | ok u => exact ha'
  | error x =>
    obtain ⟨-, rfl⟩ : guarded inp.fault () = .error x ∧ h.shared = s := by
      simpa [storeExec] using hx
    exact ⟨ha'.1, (hfail h inp x ha.2 hf).ran rfl rfl⟩

theorem writeTmp_heldIn {new text : Table String Json}
    (ha : HeldIn i r t (SerializedIn dateImage initial r new text) h) :
    WrittenSafe dateImage initial i r (OutcomeIn dateImage initial i r t fun _ =>
        HeldIn i r t (SerializedIn dateImage initial r new text))
      ((JsonFileStore.tmpStep .open).bind fun _ =>
        ((JsonFileStore.tmpStep .write).bind fun _ => JsonFileStore.tmpStep .sync).ensure
          (JsonFileStore.tmpStep .close)) h := by
  have step : ∀ {h step}, step ≠ .dir → HeldIn i r t (SerializedIn dateImage initial r new text) h →
      WrittenSafe dateImage initial i r (OutcomeIn dateImage initial i r t fun _ =>
          HeldIn i r t (SerializedIn dateImage initial r new text))
        (JsonFileStore.tmpStep step) h := fun hne ha => by
    refine tmpStep_heldIn keepsIn_serialized (fun h inp x hp hf => hp.clean ?_) ha
    unfold FailsUnset at hf
    split at hf <;> simp_all
  refine (step (by simp) ha).bind (fun _ h ha => ?_) fun _ _ he => he
  refine Safe.settle (R := OutcomeIn dateImage initial i r t fun _ =>
      HeldIn i r t (SerializedIn dateImage initial r new text))
    ((step (by simp) ha).bind (fun _ h ha => step (by simp) ha) fun _ _ he => he)
    fun out h hout => ?_
  cases out with
  | ok u => exact (step (by simp) hout).bind (fun _ _ ha => ha) fun _ _ he => he
  | error e =>
    exact (tmpStep_heldIn keepsIn_clean (fun _ _ _ hc _ => hc) hout).bind (fun _ _ ha => ha)
      fun _ _ he => he

/-- One attempt to rename. -/
theorem rename_callIn {new text : Table String Json} {attempt : ℕ}
    {next : Except StoreError Unit → StoreProg Unit}
    (ha : HeldIn i r t (SerializedIn dateImage initial r new text) h)
    (done : ∀ h, HeldIn i r t (RenamedIn dateImage initial r.handle new) h →
      WrittenSafe dateImage initial i r (OutcomeIn dateImage initial i r t fun _ =>
          HeldIn i r t (RenamedIn dateImage initial r.handle new)) (next (.ok ())) h)
    (failed : ∀ h x, HeldIn i r t (SerializedIn dateImage initial r new text) h →
      (JsonFileStore.renamesAgain attempt x = false → Clean dateImage initial r.handle h) →
      WrittenSafe dateImage initial i r (OutcomeIn dateImage initial i r t fun _ =>
          HeldIn i r t (RenamedIn dateImage initial r.handle new)) (next (.error x)) h) :
    WrittenSafe dateImage initial i r (OutcomeIn dateImage initial i r t fun _ =>
        HeldIn i r t (RenamedIn dateImage initial r.handle new))
      (.call (.rename text attempt) next) h := by
  refine written_call (HeldIn.stable keepsIn_serialized) (fun _ ha => ⟨t, ha.1⟩)
    (fun h ha => ha.2.1) (fun h inp res s ha inv hx hf => ?_) ha
  have hown := ha.1.own hx (by simp)
  simp only [storeExec] at hx
  split at hx
  · cases hx
    refine failed _ _ ⟨hown, ?_⟩ fun hlast => (ha.2.clean (hf hlast)).ran rfl rfl
    exact keepsIn_serialized _ _ (keptClean_same rfl rfl) (fun _ _ hw => hw.ran) ha.2
  · cases hx
    refine done _ ⟨hown, fun k v hv => ?_, .of_stale fun f hf hst => ?_, fun k v hv =>
      written_done ha.2.1 (ha.2.2.2 k v hv)⟩
    · rcases ha.2.2.1 k v hv with htext | hw
      · exact written_done ha.2.1 htext
      · exact hw.ran
    · cases hf
      exact absurd (inv.lock.lastStat _ _ hst) (lt_irrefl _)

theorem renameFrom_heldIn {new text : Table String Json} (left : ℕ)
    (ha : HeldIn i r t (SerializedIn dateImage initial r new text) h) :
    WrittenSafe dateImage initial i r (OutcomeIn dateImage initial i r t fun _ =>
        HeldIn i r t (RenamedIn dateImage initial r.handle new))
      (JsonFileStore.renameFrom text left) h := by
  induction left generalizing h with
  | zero =>
    exact rename_callIn ha (fun _ ha => ha) fun _ _ ha hc =>
      ⟨ha.1, hc (by simp [JsonFileStore.renamesAgain])⟩
  | succ left ih =>
    refine rename_callIn ha (fun _ ha => ha) fun h x ha hc => ?_
    dsimp only
    split_ifs with hagain
    · exact ih ha
    · exact ⟨ha.1, hc (by simpa using hagain)⟩

/-- An update of the fingerprint, or of the snapshot by what has been written. -/
theorem adopt_heldIn {new : Table String Json} (hu : (∃ st, u = .statted st) ∨ u = .adopted new)
    (hb : Below u.stat h) (ha : HeldIn i r t (RenamedIn dateImage initial r.handle new) h) :
    WrittenSafe dateImage initial i r (OutcomeIn dateImage initial i r t fun _ =>
        HeldIn i r t (RenamedIn dateImage initial r.handle new))
      (JsonFileStore.touch r.handle u) h := by
  refine written_call ((HeldIn.stable keepsIn_renamed).and belowIn_stable)
    (fun h ha => ⟨rfl, fun _ => ⟨t, ha.1.1⟩, ha.2⟩) (fun h ha => ?_)
    (fun h _ _ _ ha _ hx _ => ?_) ⟨ha, hb⟩
  · rcases hu with ⟨st, rfl⟩ | rfl
    · trivial
    · exact ha.1.2.1
  · have hown := ha.1.1.own hx (by simp)
    obtain ⟨hnew, -, hraw⟩ := ha.1.2
    cases hx
    have hraw' : ∀ k v, ((h.shared.setStore r.handle
        (u.apply dateImage (h.shared.store r.handle))).store r.handle).rawJsonByKey.lookup k =
        some v → Written dateImage initial h k v := fun k v hv => by
      rw [store_setStore] at hv
      rcases hu with ⟨st, rfl⟩ | rfl <;> exact hraw k v hv
    exact ⟨hown, fun k v hv => (hnew k v hv).ran, fun _ k v w hv _ => (hraw' k v hv).ran,
      fun k v hv => (hraw' k v hv).ran⟩

/-- What follows the rename cannot fail. -/
theorem settled_heldIn {new : Table String Json}
    (ha : HeldIn i r t (RenamedIn dateImage initial r.handle new) h) :
    WrittenSafe dateImage initial i r (OutcomeIn dateImage initial i r t fun _ =>
        HeldIn i r t (RenamedIn dateImage initial r.handle new))
      (.call .chmod fun _ => .call .fsyncDir fun _ => do
        JsonFileStore.touch r.handle .renamed
        let st ← (JsonFileStore.currentStat r.handle).handle fun _ => .ret none
        JsonFileStore.touch r.handle (.statted st)) h := by
  refine written_call (HeldIn.stable keepsIn_renamed) (fun _ ha => ⟨t, ha.1⟩) (fun _ _ => trivial)
    (fun h inp res s ha inv hx _ => ?_) ha
  have ha' : HeldIn i r t (RenamedIn dateImage initial r.handle new) (h.ran i r .chmod inp res s) := by
    have hown := ha.1.own hx (by simp)
    obtain ⟨hnew, -, hraw⟩ := ha.2
    cases hx
    have hraw' : ∀ k v, ((if inp.fault.isSome then h.shared else { h.shared with
        file := h.shared.file.map fun f => { f with stat := h.shared.stamps }
        stamps := h.shared.stamps + 1 }).store r.handle).rawJsonByKey.lookup k = some v →
        Written dateImage initial h k v := fun k v hv => by
      split_ifs at hv <;> exact hraw k v hv
    exact ⟨hown, fun k v hv => (hnew k v hv).ran, fun _ k v w hv _ => (hraw' k v hv).ran,
      fun k v hv => (hraw' k v hv).ran⟩
  refine written_call (HeldIn.stable keepsIn_renamed) (fun _ _ => trivial) (fun _ _ => trivial)
    (fun h _ _ _ ha inv hx _ => ?_) ha'
  refine plain_heldIn ⟨rfl, rfl, by simp⟩ keepsIn_renamed (fun _ h ha => ?_)
    (ha.idle keepsIn_renamed hx trivial trivial)
  refine Safe.bind (R := OutcomeIn dateImage initial i r t fun st h =>
      HeldIn i r t (RenamedIn dateImage initial r.handle new) h ∧ Below st h)
    ((currentStat_heldIn keepsIn_renamed ha).settle fun out h hout => ?_)
    (fun st h hst => adopt_heldIn (.inl ⟨st, rfl⟩) hst.2 hst.1) fun _ _ he => he
  cases out with
  | ok st => exact ⟨⟨hout.1.1, hout.1.2.1⟩, hout.2⟩
  | error e => exact ⟨hout, fun n hn => by cases hn⟩

theorem persist_heldIn {new : Table String Json}
    (hkey : ∀ key, r.call.sets = some key → key = mutatedKey)
    (ha : HeldIn i r t (MutatedIn dateImage initial r new) h) :
    WrittenSafe dateImage initial i r (OutcomeIn dateImage initial i r t fun _ =>
        HeldIn i r t (RenamedIn dateImage initial r.handle new))
      (JsonFileStore.persist r.handle new mutatedKey) h := by
  refine (tmpStep_heldIn keepsIn_mutated (fun _ _ _ hp _ => hp.1) ha).bind (fun _ h ha => ?_)
    fun _ _ he => he
  refine written_call (HeldIn.stable keepsIn_mutated)
    (fun h ha => ⟨rfl, fun _ => ⟨t, ha.1⟩, by simp [StoreUpdate.stat]⟩) (fun _ _ => trivial)
    (fun h inp _ _ ha _ hx _ => ?_) ha
  have hown := ha.1.own hx (by simp)
  cases hx
  have hserial : HeldIn i r t (SerializedIn dateImage initial r new _) _ :=
    ⟨hown, SerializedIn.of_mutated hkey ha.2⟩
  simp only [Prog.bind_def]
  rw [← Prog.bind_assoc]
  refine (writeTmp_heldIn hserial).bind (fun _ h ha => ?_) fun _ _ he => he
  exact (renameFrom_heldIn 4 ha).bind (fun _ h ha => settled_heldIn ha) fun _ _ he => he

/-- A snapshot whose fingerprint is the file's has been written, and so have its texts. -/
theorem copiedIn_of_matches (inv : WrittenInv dateImage initial h)
    (hclean : Clean dateImage initial r.handle h) (hstat : h.shared.file.map StoredFile.stat = st)
    (hmatch : (h.shared.store r.handle).statMatches st = true) :
    CopiedIn dateImage initial r.handle (h.shared.store r.handle).data h := by
  simp only [JsonFileStore.statMatches, Bool.and_eq_true, decide_eq_true_eq] at hmatch
  obtain ⟨⟨hloaded, hsome⟩, heq⟩ := hmatch
  obtain ⟨n, hn⟩ := Option.isSome_iff_exists.mp hsome
  obtain ⟨f, hf, rfl⟩ := Option.map_eq_some_iff.mp (hstat.trans (heq.trans hn))
  exact ⟨inv.data r.handle, hclean, hclean ⟨hloaded, f, hf, hn⟩⟩

theorem locked_heldIn {mutate : Bool → Table String Json → StoreProg (Table String Json)}
    (hmut : ∀ shared data h, HeldIn i r t (CopiedIn dateImage initial r.handle data) h →
      WrittenSafe dateImage initial i r (OutcomeIn dateImage initial i r t fun new =>
          HeldIn i r t (MutatedIn dateImage initial r new)) (mutate shared data) h)
    (hkey : ∀ key, r.call.sets = some key → key = mutatedKey)
    (ha : HeldIn i r t (Clean dateImage initial r.handle) h) :
    WrittenSafe dateImage initial i r
      (OutcomeIn dateImage initial i r t fun _ => HeldIn i r t (Clean dateImage initial r.handle))
      (do
        let st ← JsonFileStore.currentStat r.handle
        let store ← (.call (.store r.handle .look) .ret : StoreProg JsonFileStore)
        let shared := store.statMatches st
        let data ← if shared then .ret store.data
          else JsonFileStore.readFromDisk r.handle st false
        let data ← mutate shared data
        JsonFileStore.persist r.handle data mutatedKey
        JsonFileStore.touch r.handle (.adopted data)) h := by
  have keeps : ∀ st, KeepsIn dateImage initial r.handle fun h =>
      Clean dateImage initial r.handle h ∧ h.shared.file.map StoredFile.stat = st :=
    fun st h h' hk hw hp => ⟨hk.2.2 hp.1, by rw [hk.1]; exact hp.2⟩
  refine Safe.bind (R := OutcomeIn dateImage initial i r t fun st h => HeldIn i r t (fun h =>
      Clean dateImage initial r.handle h ∧ h.shared.file.map StoredFile.stat = st) h ∧ Below st h)
    ((currentStat_heldIn keepsIn_clean ha).mono fun out h hout => ?_) (fun st h hst => ?_)
    fun _ _ he => he
  · cases out with
    | ok st => exact hout
    | error e => exact hout
  refine written_call ((HeldIn.stable (keeps st)).and belowIn_stable)
    (fun _ _ => ⟨rfl, by simp [StoreUpdate.exclusive], by simp [StoreUpdate.stat]⟩)
    (fun _ _ => trivial) (fun h _ store _ ha inv hx _ => ?_) hst
  have hb := ha.2.ran (i := i) (r := r) hx
  have hl : Locked i r h (.store r.handle .look) :=
    ⟨rfl, by simp [StoreUpdate.exclusive], by simp [StoreUpdate.stat]⟩
  have ha' := ha.1.idle (keeps st) hx hl rfl
  have rest : ∀ shared data h, HeldIn i r t (CopiedIn dateImage initial r.handle data) h →
      WrittenSafe dateImage initial i r
        (OutcomeIn dateImage initial i r t fun _ => HeldIn i r t (Clean dateImage initial r.handle))
        ((mutate shared data).bind fun data => (JsonFileStore.persist r.handle data mutatedKey).bind
          fun _ => JsonFileStore.touch r.handle (.adopted data)) h := fun shared data h hdata => by
    refine (hmut shared data h hdata).bind (fun new h hnew => ?_) fun _ _ he => he
    refine (persist_heldIn hkey hnew).bind (fun _ h hdone => ?_) fun _ _ he => he
    refine (adopt_heldIn (.inr rfl) (fun n hn => by cases hn) hdone).mono fun out h hout => ?_
    cases out with
    | ok u => exact ⟨hout.1, hout.2.2.1⟩
    | error e => exact hout
  change Safe _ _ _ _ _ (if store.statMatches st then _ else _) _
  split_ifs with hmatch
  · refine rest _ store.data _ ⟨ha'.1, ?_⟩
    refine keepsIn_copied _ _ (keptClean_of_idle hx hl rfl _) (fun _ _ hw => hw.ran) ?_
    cases hx
    exact copiedIn_of_matches inv ha.1.2.1 ha.1.2.2 hmatch
  · exact (readFromDisk_heldIn ⟨ha'.1, ha'.2.1⟩ hb).bind (fun data h hdata => rest _ data h hdata)
      fun _ _ he => he

end Writer

theorem alive_stableIn : Stable (writtenContract dateImage initial) i r (Alive r) :=
  fun _ _ hr ha => hr.1 ha

theorem withLock_safeIn {mutate : Bool → Table String Json → StoreProg (Table String Json)}
    (hmut : ∀ t shared data h, HeldIn i r t (CopiedIn dateImage initial r.handle data) h →
      WrittenSafe dateImage initial i r (OutcomeIn dateImage initial i r t fun new =>
          HeldIn i r t (MutatedIn dateImage initial r new)) (mutate shared data) h)
    (hkey : ∀ key, r.call.sets = some key → key = mutatedKey) (ha : Alive r h) :
    WrittenSafe dateImage initial i r (fun _ _ => True)
      (JsonFileStore.withLock r.handle mutate mutatedKey) h := by
  refine written_call alive_stableIn (fun _ _ => trivial) (fun _ _ => trivial)
    (fun h _ res _ ha _ _ _ => ?_) ha
  cases res with
  | error e => trivial
  | ok u =>
    refine written_call alive_stableIn (fun _ _ => rfl) (fun _ _ => trivial)
      (fun h inp res s ha inv hx _ => ?_) ha.ran
    cases res with
    | error e => trivial
    | ok t =>
      have hheld : HeldIn i r t (Clean dateImage initial r.handle)
          (h.ran i r (.acquire r.handle) inp (.ok t) s) := by
        simp only [storeExec] at hx
        split at hx
        · cases hx
        · split_ifs at hx with hfree
          cases hx
          refine ⟨⟨owns_acquired, rfl⟩, ?_⟩
          rcases inv.clean r.handle ha with hc | ⟨t, ht⟩
          · exact hc.ran rfl rfl
          · simp [ht] at hfree
      refine (locked_heldIn (hmut t) hkey hheld).settle fun out h hout => ?_
      have hc : HeldIn i r t (Clean dateImage initial r.handle) h := by cases out <;> exact hout
      refine written_call (HeldIn.stable keepsIn_clean) (fun _ ha => ha.1.1) (fun _ ha => ha)
        (fun _ _ _ _ _ _ _ _ => ?_) hc
      cases out <;> trivial

/-! Readers. -/

section Reader

theorem true_stableIn : Stable (writtenContract dateImage initial) i r fun _ => True :=
  fun _ _ _ => id

theorem plain_freeIn {next : JsonFileStore → StoreProg α} (hu : u.plain)
    (rest : ∀ store h, WrittenSafe dateImage initial i r Q (next store) h) :
    WrittenSafe dateImage initial i r Q (.call (.store r.handle u) next) h :=
  written_call true_stableIn (fun h _ => hu.locked h) (fun h _ => hu.prepared h)
    (fun _ _ _ _ _ _ _ _ => rest _ _) trivial

theorem currentStat_freeIn :
    WrittenSafe dateImage initial i r
      (fun out h => ∀ st, out = .ok st → Below st h)
      (JsonFileStore.currentStat r.handle) h := by
  refine written_call true_stableIn (fun _ _ => trivial) (fun _ _ => trivial)
    (fun h inp res s _ inv hx _ => ?_) trivial
  cases res with
  | error e => exact fun st hst => by cases hst
  | ok st =>
    obtain ⟨hst, -⟩ : guarded inp.fault (h.shared.file.map StoredFile.stat) = .ok st ∧
        h.shared = s := by simpa [storeExec] using hx
    have hb := (guarded_ok hst ▸ below_stat inv.lock : Below st h).ran (i := i) (r := r) hx
    cases st with
    | some n =>
      rintro st ⟨⟩
      exact hb
    | none =>
      refine plain_freeIn ⟨rfl, rfl, by simp⟩ fun store h => ?_
      split_ifs
      · exact fun st hst => by cases hst
      · rintro st ⟨⟩ n hn
        cases hn

theorem adopt_freeIn {n : ℕ} (hb : Below (some n) h) :
    WrittenSafe dateImage initial i r (fun _ _ => True)
      (JsonFileStore.readFromDisk r.handle (some n) true) h := by
  refine written_call belowIn_stable (fun _ _ => trivial) (fun _ _ => trivial)
    (fun h inp res s hb inv hx _ => ?_) hb
  cases res with
  | error e => exact plain_freeIn ⟨rfl, rfl, by simp⟩ fun _ _ => trivial
  | ok parsed =>
    cases parsed with
    | none =>
      refine plain_freeIn ⟨rfl, rfl, by simp⟩ fun store h => ?_
      split_ifs
      · exact plain_freeIn ⟨rfl, rfl, by simp⟩ fun _ _ => trivial
      · exact plain_freeIn ⟨rfl, rfl, by simp⟩ fun _ _ => trivial
    | some parsed =>
      have hb' := hb.ran (i := i) (r := r) hx
      obtain ⟨hparsed, rfl⟩ : guarded inp.fault (h.shared.file.map StoredFile.contents) =
          .ok (some parsed) ∧ h.shared = s := by simpa [storeExec] using hx
      have stable : Stable (writtenContract dateImage initial) i r
          (AllWritten dateImage initial parsed) := fun _ _ hr hw k v hv => hr.2.2.1 k v (hw k v hv)
      have hwritten : AllWritten dateImage initial parsed
          (h.ran i r .readFile inp (.ok (some parsed)) h.shared) := fun k v hv =>
        (inv.file k v (by simp [StoreShared.contents, guarded_ok hparsed, hv])).ran
      exact written_call (stable.and belowIn_stable)
        (fun h ha => ⟨rfl, by simp [StoreUpdate.exclusive], ha.2⟩) (fun h ha => ha.1)
        (fun _ _ _ _ _ _ _ _ => trivial) ⟨hwritten, hb'⟩

theorem reloadFromDisk_safeIn :
    WrittenSafe dateImage initial i r (fun _ _ => True) (JsonFileStore.reloadFromDisk r.handle) h := by
  refine currentStat_freeIn.bind (fun st h hst => ?_) fun _ _ _ => trivial
  cases st with
  | none => exact plain_freeIn ⟨rfl, rfl, by simp⟩ fun _ _ => trivial
  | some n =>
    have hu : StoreUpdate.look.plain := ⟨rfl, rfl, by simp⟩
    refine written_call belowIn_stable (fun h _ => hu.locked h) (fun h _ => hu.prepared h)
      (fun h _ _ _ hb _ hx _ => ?_) (hst _ rfl)
    have hb' := hb.ran (i := i) (r := r) hx
    split_ifs
    · trivial
    · exact (adopt_freeIn hb').bind (fun _ _ _ => trivial) fun _ _ _ => trivial

/-- The values a reader takes from the snapshot have been written. -/
theorem reading_safeIn {f : JsonFileStore → α} (hu : u.plain)
    (hq : ∀ store h, AllWritten dateImage initial store.data h → Q (.ok (f store)) h)
    (hqe : ∀ e h, Q (.error e) h) :
    WrittenSafe dateImage initial i r Q ((JsonFileStore.reloadFromDisk r.handle).bind fun _ =>
        .call (.store r.handle u) fun store => .ret (f store)) h := by
  refine reloadFromDisk_safeIn.bind (fun _ h _ => ?_) fun e h _ => hqe e h
  refine written_call true_stableIn (fun h _ => hu.locked h) (fun h _ => hu.prepared h)
    (fun h _ _ _ _ inv hx _ => ?_) trivial
  cases hx
  exact hq _ _ fun k v hv => (inv.data r.handle k v hv).ran

theorem revived_written {store : JsonFileStore} {key : String}
    (hd : AllWritten dateImage initial store.data h)
    (hv : store.revived dateImage store.data key = some v) : Written dateImage initial h key v := by
  unfold JsonFileStore.revived at hv
  split_ifs at hv
  · exact hd key v hv
  · obtain ⟨w, hw, rfl⟩ := Option.map_eq_some_iff.mp hv
    exact (hd key w hw).revived

end Reader

/-- The entries a call returns have been written. -/
def Returned (dateImage : String → Json) (initial : Table String Json)
    (out : Except StoreError (List (String × Json))) (h : StoreHist) : Prop :=
  ∀ entries, out = .ok entries → ∀ kv ∈ entries, Written dateImage initial h kv.1 kv.2

theorem storeBody_safeIn (i : ℕ) (r : StoreRequest) (ha : Alive r h) :
    WrittenSafe dateImage initial i r (Returned dateImage initial) (r.body dateImage) h := by
  have silent : ∀ {p : StoreProg Unit},
      WrittenSafe dateImage initial i r (fun _ _ => True) p h →
      WrittenSafe dateImage initial i r
        (Returned dateImage initial) ((fun _ => []) <$> p) h := fun hp => by
    refine hp.bind (fun _ _ _ => ?_) fun _ _ _ => ?_
    · rintro entries ⟨⟩ kv hkv
      cases hkv
    · rintro entries ⟨⟩
  have edit : ∀ {u} (new : Table String Json → Table String Json) {key : String}, u.plain →
      (∀ data, r.call.apply data = .ok (new data)) → (∀ k, r.call.sets = some k → k = key) →
      WrittenSafe dateImage initial i r (fun _ _ => True)
        (JsonFileStore.withLock r.handle (fun _ data => (JsonFileStore.touch r.handle u).bind
          fun _ => .ret (new data)) key) h := fun _ _ hu happly hkey =>
    withLock_safeIn (fun _ _ data _ hdata => edit_heldIn hu
      (fun _ _ hs hv => apply_other (happly data) hs hv) hdata) hkey ha
  unfold StoreRequest.body
  split <;> rename_i hcall
  · rename_i key
    refine Safe.bind (R := fun out h => ∀ v, out = .ok (some v) → Written dateImage initial h key v)
      (reading_safeIn ⟨rfl, rfl, by simp⟩ (fun store h hd v hv => ?_) fun e h v hv => by cases hv)
      (fun v h hv => ?_) fun e h _ => by rintro entries ⟨⟩
    · exact revived_written hd (Except.ok.inj hv)
    · rintro entries ⟨⟩ kv hkv
      obtain ⟨w, hw, rfl⟩ := List.mem_map.mp hkv
      exact hv w (by rw [Option.mem_toList.mp hw])
  · refine reading_safeIn ⟨rfl, rfl, by simp⟩ (fun store h hd => ?_) fun e h => by rintro entries ⟨⟩
    rintro entries ⟨⟩ kv hkv
    obtain ⟨key, -, hkey⟩ := List.mem_filterMap.mp hkv
    obtain ⟨v, hv, rfl⟩ := Option.map_eq_some_iff.mp hkey
    exact revived_written hd hv
  · refine silent (withLock_safeIn (fun t shared data h hdata => update_heldIn hcall hdata) ?_ ha)
    rw [hcall]
    rintro k ⟨⟩
    rfl
  · refine silent (edit _ ⟨rfl, rfl, by simp⟩ (fun data => by rw [hcall]; rfl) ?_)
    rw [hcall]
    rintro k ⟨⟩
    rfl
  · refine silent (edit _ ⟨rfl, rfl, by simp⟩ (fun data => by rw [hcall]; rfl) ?_)
    rw [hcall]
    rintro k ⟨⟩
  · refine silent (edit (fun _ => ∅) ⟨rfl, rfl, by simp⟩ (fun data => by rw [hcall]; rfl) ?_)
    rw [hcall]
    rintro k ⟨⟩

theorem Clean.later {h h' : StoreHist} (hc : Clean dateImage initial hd h)
    (hfile : h'.shared.file = h.shared.file) (hstores : h'.shared.stores = h.shared.stores)
    (hmem : ∀ e ∈ h.entries, e ∈ h'.entries) : Clean dateImage initial hd h' := by
  have hstore : h'.shared.store hd = h.shared.store hd := by simp only [StoreShared.store, hstores]
  exact hc.of_revives hfile (hstore ▸ .refl _) fun k v hw => hw.mono hmem

theorem writtenUpheld : (writtenContract dateImage initial).Upheld (storeSystem dateImage)
    fun _ _ => Returned dateImage initial where
  okPrefix h ev s (hok : (h.push ev s).Always fun _ e => FailsUnset e) := hok.past
  refl _ _ _ := ⟨id, le_rfl, fun _ _ => id, fun _ hh => ⟨hh, rfl, .inl rfl, id⟩⟩
  trans i r h₁ h₂ h₃ h₁₂ h₂₃ := by
    obtain ⟨ha, hle, hw, hlock⟩ := h₁₂
    obtain ⟨ha', hle', hw', hlock'⟩ := h₂₃
    refine ⟨fun alive => ha' (ha alive), hle.trans hle', fun k v h => hw' k v (hw k v h),
      fun t hh => ?_⟩
    obtain ⟨hh', hk⟩ := hlock t hh
    obtain ⟨hh'', hk'⟩ := hlock' t hh'
    refine ⟨hh'', hk'.1.trans hk.1, ?_, fun hc => hk'.2.2 (hk.2.2 hc)⟩
    rcases hk'.2.1 with hr | hr
    · rw [hr]
      exact hk.2.1
    · exact .inr hr
  began h i r s inv _ alive hadmit _ := by
    cases hadmit
    have hmem : ∀ e ∈ h.entries, e ∈ (h.push (.began i r) h.shared).entries := by simp
    refine ⟨⟨lockInv_began inv.lock, fun k v hv => (inv.file k v hv).mono hmem,
      fun hd k v hv => (inv.data hd k v hv).mono hmem, fun hd alive => ?_⟩, fun j d _ => ?_,
      storeBody_safeIn i r (by simpa [Alive] using (show r.handle.process ∉ h.dead from alive))⟩
    · exact (inv.clean hd (by simpa using alive)).imp_left fun hc => hc.later rfl rfl hmem
    · refine ⟨fun alive => by simpa using alive, le_rfl, fun k v hw => hw.mono hmem,
        fun t hh => ⟨⟨by simpa [Owns] using hh.1, hh.2⟩, rfl, .inl rfl, fun hc => hc.later rfl rfl hmem⟩⟩
  crashed h p inv _ := by
    have hmem : ∀ e ∈ h.entries, e ∈ (h.push (.crashed p) (h.shared.crash p)).entries := by simp
    refine ⟨⟨lockInv_crashed inv.lock, fun k v hv => (inv.file k v hv).mono hmem,
      fun hd k v hv => (inv.data hd k v hv).mono hmem, fun hd alive => ?_⟩, fun j d hd => ?_⟩
    · simp only [Hist.dead_push_crashed, List.mem_append, List.mem_singleton, not_or] at alive
      refine (inv.clean hd alive.1).imp (fun hc => hc.later rfl rfl hmem) ?_
      rintro ⟨t, ht⟩
      refine ⟨t, ?_⟩
      exact Option.filter_eq_some_iff.mpr ⟨ht, by simpa using alive.2⟩
    · have hd : d.handle.process ≠ p := hd
      refine ⟨fun alive => ?_, le_rfl, fun k v hw => hw.mono hmem, fun t hh => ⟨⟨?_, ?_⟩, rfl, .inl rfl,
        fun hc => hc.later rfl rfl hmem⟩⟩
      · rw [Hist.dead_push_crashed, List.mem_append, List.mem_singleton, not_or]
        exact ⟨alive, hd⟩
      · simpa [Owns] using hh.1
      · exact Option.filter_eq_some_iff.mpr ⟨hh.2, by simpa using hd⟩

end Safety

theorem writtenInv_start {dateImage : String → Json} {initial : Option (Table String Json)} :
    WrittenInv dateImage (initial.getD ∅) ⟨[], onDisk initial⟩ := by
  refine ⟨lockInv_start initial, fun k v hv => ?_, fun hd k v hv => ?_, fun hd _ => .inl ?_⟩
  · rw [onDisk_contents] at hv
    exact .initial v hv
  · cases hv
  · rintro ⟨hloaded, -⟩
    cases hloaded

theorem FailsInStep.unset {e : StoreEntry} (h : FailsInStep e) : FailsUnset e := by
  obtain ⟨i, r, op, inp, res, before, after⟩ := e
  cases op with
  | tmp step =>
    cases res with
    | ok u => cases step <;> trivial
    | error x =>
      cases step with
      | dir => trivial
      | _ => exact h.2
  | rename contents attempt =>
    cases res with
    | ok u => trivial
    | error x => exact fun hagain => (h hagain).2
  | _ => trivial

theorem FailsInStep.harmlessly {dateImage : String → Json} {e : StoreEntry} (h : FailsInStep e)
    (ho : OthersInStep dateImage e) : FailsHarmlessly dateImage e := by
  obtain ⟨i, r, op, inp, res, before, after⟩ := e
  cases op with
  | tmp step =>
    cases res with
    | ok u => cases step <;> trivial
    | error x => cases step <;> exact h
  | rename contents attempt =>
    cases res with
    | ok u => trivial
    | error x => exact h
  | store hd u =>
    cases u with
    | read st parsed adopt =>
      cases adopt with
      | true => trivial
      | false => exact ho
    | serialize data mutatedKey => exact ho
    | _ => trivial
  | _ => trivial

/-- A write takes a key out of the contents if it deletes it or clears them. -/
theorem apply_removes {call : StoreCall} {contents contents' : Table String Json} {key : String}
    (h : call.apply contents = .ok contents') (hkey : contents.lookup key ≠ none)
    (hgone : contents'.lookup key = none) : call = .delete key ∨ call = .clear := by
  have kept {k : String} {v : Json} (hnone : (contents.insert k v).lookup key = none) : False := by
    by_cases hk : key = k
    · subst hk
      rw [AList.lookup_insert] at hnone
      cases hnone
    · rw [AList.lookup_insert_ne hk] at hnone
      exact hkey hnone
  cases call with
  | update k mutate =>
    obtain ⟨v, -, rfl⟩ := except_map_eq_ok.mp h
    exact (kept hgone).elim
  | put k v =>
    cases h
    exact (kept hgone).elim
  | delete k =>
    cases h
    by_cases hk : key = k
    · exact .inl (by rw [hk])
    · rw [AList.lookup_erase_ne hk] at hgone
      exact absurd hgone hkey
  | clear => exact .inr rfl
  | get k =>
    cases h
    exact absurd hgone hkey
  | list keyPrefix =>
    cases h
    exact absurd hgone hkey

/-- What one command does to the file: a write that went through is the call's own effect, and any other
command leaves the contents. -/
theorem contents_step {dateImage : String → Json} {initial : Option (Table String Json)}
    (dates : KeepsDates dateImage (initial.getD ∅)) {cfg : StoreConfig}
    (hr : Reach (storeSystem dateImage) (onDisk initial) cfg)
    (hok : cfg.hist.Always fun _ e => FailsHarmlessly dateImage e)
    {pre post : List (Event StoreOp StoreRes StoreRequest ℕ StoreInput StoreShared)} {e : StoreEntry}
    (he : cfg.hist.events = pre ++ .ran e :: post) :
    (∀ key, e.after.contents.lookup key = e.before.contents.lookup key) ∨
    writeDone e = true ∧ ∃ c c', e.call.call.apply c = .ok c' ∧
      (∀ key, e.before.contents.lookup key = c.lookup key) ∧
      ∀ key, e.after.contents.lookup key = c'.lookup key := by
  obtain ⟨cfg₁, hr₁, hhist₁, -, -⟩ := hr.ran he
  obtain ⟨cfg₂, hr₂, hhist₂, -⟩ := hr.ran_after he
  have hevents : cfg.hist.events = (pre ++ [.ran e]) ++ post := by simpa using he
  obtain ⟨c, hc, hbefore⟩ :=
    (sequentialWrites_run dates hr₁ (by rw [hhist₁]; exact hok.upTo he)).contents
  obtain ⟨c', hc', hafter⟩ :=
    (sequentialWrites_run dates hr₂ (by rw [hhist₂]; exact hok.upTo hevents)).contents
  rw [hhist₁] at hc hbefore
  rw [hhist₂] at hc' hafter
  have hlast := doneWrites_ran ⟨pre, e.before⟩ e e.after
  rw [Hist.push] at hlast
  rw [hlast, List.foldlM_append, hc] at hc'
  cases hdone : writeDone e with
  | false =>
    rw [hdone] at hc'
    cases hc'
    exact .inl fun key => (hafter key).trans (hbefore key).symm
  | true =>
    rw [hdone] at hc'
    refine .inr ⟨rfl, c, c', ?_, hbefore, hafter⟩
    cases hone : e.call.call.apply c with
    | error x => simp [bind, Except.bind, hone] at hc'
    | ok c₁ => simpa [bind, Except.bind, pure, Except.pure, hone] using hc'

theorem exactWrites_run {dateImage : String → Json} {initial : Option (Table String Json)}
    (dates : KeepsDates dateImage (initial.getD ∅)) {cfg : StoreConfig}
    (hr : Reach (storeSystem dateImage) (onDisk initial) cfg)
    (hok : cfg.hist.Always fun _ e => FailsHarmlessly dateImage e) :
    ExactWrites (initial.getD ∅) cfg := by
  refine ⟨sequentialWrites_run dates hr hok, fun pre e post he key hkey hgone => ?_,
    fun hd alive => ?_⟩
  · rcases contents_step dates hr hok he with hsame | ⟨hdone, c, c', happly, hbefore, hafter⟩
    · exact absurd ((hsame key).symm.trans hgone) hkey
    · rw [hbefore] at hkey
      rw [hafter] at hgone
      exact ⟨hdone, apply_removes happly hkey hgone⟩
  · exact ((storeUpheld.run (storeInv_start dates) hr hok).1.coherent hd alive).imp_left
      fun hcoherent htrusts => (hcoherent htrusts).1

/-- In every run in which each write that fails finds its instance's map in step with the file and
without a value under its key, failed writes have no effect. -/
theorem failures_vanish (dateImage : String → Json) (initial : Option (Table String Json))
    {cfg : StoreConfig} (hr : Reach (storeSystem dateImage) (onDisk initial) cfg)
    (hok : cfg.hist.Always fun _ e => FailsInStep e) :
    FailuresVanish dateImage (initial.getD ∅) cfg := by
  have hunset : cfg.hist.Always fun _ e => FailsUnset e := fun pre e post he =>
    (hok pre e post he).unset
  refine ⟨(writtenUpheld.run writtenInv_start hr hunset).1.file, fun i r entries ht kv hkv => ?_,
    fun i r x ht => ?_, fun dates hothers => exactWrites_run dates hr fun pre e post he =>
      (hok pre e post he).harmlessly (hothers pre e post he)⟩
  · obtain ⟨h₀, hrely, hret⟩ := writtenUpheld.finished writtenInv_start hr hunset (o := .ok entries) ht
    exact hrely.2.2.1 _ _ (hret entries rfl kv hkv)
  · have hcount := storeBody_counts (hr.ends (o := .error x) ht)
    simp only [Except.isOk, Except.toBool, Bool.and_false, Bool.false_eq_true, if_false] at hcount
    simpa [renames, List.filter_eq_nil_iff] using hcount

/-- A call whose temporary file cannot be opened. -/
def diskFull (i : ℕ) (hd : StoreHandle) (call : StoreCall) :
    List (Action StoreRequest ℕ StoreInput) :=
  storeRun i hd call 7 ++ [.run i ⟨some ⟨some "ENOSPC", "no space left on device"⟩⟩, .run i ⟨none⟩]

def failedWrites : List (Action StoreRequest ℕ StoreInput) :=
  storeRun 0 firstStore (.put "a" (.num 1)) 23 ++ diskFull 1 firstStore (.put "b" (.num 2)) ++
    diskFull 2 firstStore (.delete "a") ++ storeRun 3 firstStore (.put "c" (.num 3)) 19

def sameNum : Option Json → Option Json → Bool
  | some (.num m), some (.num n) => m = n
  | none, none => true
  | _, _ => false

theorem eq_of_sameNum {a b : Option Json} (h : sameNum a b = true) : a = b := by
  unfold sameNum at h
  split at h
  · rw [of_decide_eq_true h]
  · rfl
  · cases h

/-- The map holds the same numbers as the file. -/
def sameNums (data contents : Table String Json) : Bool :=
  (data.keys ++ contents.keys).all fun k => sameNum (data.lookup k) (contents.lookup k)

theorem lookup_of_sameNums {data contents : Table String Json} (h : sameNums data contents = true)
    (k : String) : data.lookup k = contents.lookup k := by
  by_cases hk : k ∈ data.keys ++ contents.keys
  · exact eq_of_sameNum (List.all_eq_true.mp h k hk)
  · rw [List.mem_append, not_or] at hk
    rw [AList.lookup_eq_none.mpr (AList.mem_keys.not.mpr hk.1),
      AList.lookup_eq_none.mpr (AList.mem_keys.not.mpr hk.2)]

/-- What fails does so in step with the file, and sets no key that is in the map. -/
def failsNew (_ : StoreHist) (e : StoreEntry) : Bool :=
  let store := e.before.store e.call.handle
  let inStep := sameNums store.data e.before.contents && match e.call.call.sets with
    | some key => (store.data.lookup key).isNone
    | none => true
  match e.op, e.res with
  | .tmp _, .error _ => inStep
  | .rename _ _, .error _ => inStep
  | _, _ => true

theorem failsNew_inStep (h : StoreHist) (e : StoreEntry) (hp : failsNew h e = true) :
    FailsInStep e := by
  obtain ⟨i, r, op, inp, res, before, after⟩ := e
  have inStep : (sameNums (before.store r.handle).data before.contents && match r.call.sets with
      | some key => ((before.store r.handle).data.lookup key).isNone
      | none => true) = true → Settled r.handle before ∧ Unset r before := fun hnew => by
    obtain ⟨hsame, hnone⟩ := Bool.and_eq_true_iff.mp hnew
    exact ⟨fun _ => lookup_of_sameNums hsame, fun _ key hs => by simpa [hs] using hnone⟩
  cases op with
  | tmp step =>
    cases res with
    | ok u => cases step <;> trivial
    | error x =>
      cases step with
      | dir => exact (inStep hp).1
      | _ => exact inStep hp
  | rename contents attempt =>
    cases res with
    | ok u => trivial
    | error x => exact fun _ => inStep hp
  | _ => trivial

theorem failures_vanish_failedWrites : ∃ cfg, Reach (storeSystem Json.str) (onDisk none) cfg ∧
    (cfg.hist.entriesOf 1).length = 9 ∧ (cfg.hist.entriesOf 2).length = 9 ∧
    cfg.hist.shared.contents.keys = ["c", "a"] ∧ FailuresVanish Json.str ∅ cfg := by
  have hrun : (schedule (storeSystem Json.str) failedWrites (Config.start (onDisk none))).any
      (fun cfg => (cfg.hist.entriesOf 1).length = 9 && (cfg.hist.entriesOf 2).length = 9 &&
        cfg.hist.shared.contents.keys = ["c", "a"] &&
        Hist.checkFrom failsNew [] cfg.hist.events) = true := by decide
  obtain ⟨cfg, hr, hcheck⟩ := Reach.of_check hrun
  simp only [Bool.and_eq_true, decide_eq_true_eq] at hcheck
  exact ⟨cfg, hr, hcheck.1.1.1, hcheck.1.1.2, hcheck.1.2,
    failures_vanish Json.str none hr (Hist.always_of_check failsNew_inStep hcheck.2)⟩

/-- The same for a key the store knows: the text cached for the failed write is written with
the next one. -/
def failedChange : List (Action StoreRequest ℕ StoreInput) :=
  storeRun 0 firstStore (.put "a" (.num 1)) 23 ++ storeRun 1 firstStore (.put "b" (.num 2)) 19 ++
    diskFull 2 firstStore (.put "a" (.num 9)) ++ storeRun 3 firstStore (.put "b" (.num 3)) 19

def holdsNum (data : Table String Json) (key : String) (n : ℤ) : Bool :=
  match data.lookup key with
  | some (.num m) => m = n
  | _ => false

/-- No call that sets the key has written the value. -/
def neverWrote (key : String) (n : ℤ) (h : StoreHist) : Bool :=
  h.entries.all fun e => match e.op with
    | .rename contents _ => !(e.call.call.sets = some key && holdsNum contents key n)
    | _ => true

theorem written_num {key : String} {n : ℤ} (hnever : neverWrote key n h = true)
    (hw : Written Json.str ∅ h key v) : v ≠ .num n := by
  induction hw with
  | initial v hv => cases hv
  | write e contents attempt v he hd hop hs hv =>
    rintro rfl
    have hall := List.all_eq_true.mp hnever e he
    simp [hop, hs, holdsNum, hv] at hall
  | revived v _ ih =>
    intro hv
    cases v <;> simp_all [reviveDates]

theorem store_writesFailedChange : ∃ cfg, Reach (storeSystem Json.str) (onDisk none) cfg ∧
    ¬ FailuresVanish Json.str ∅ cfg := by
  have hrun : (schedule (storeSystem Json.str) failedChange (Config.start (onDisk none))).any
      (fun cfg => holdsNum cfg.hist.shared.contents "a" 9 && neverWrote "a" 9 cfg.hist) = true := by
    decide
  obtain ⟨cfg, hr, hcheck⟩ := Reach.of_check hrun
  obtain ⟨hnine, hnever⟩ := Bool.and_eq_true_iff.mp hcheck
  refine ⟨cfg, hr, fun hvanish => ?_⟩
  unfold holdsNum at hnine
  split at hnine
  · rename_i m hm
    exact written_num hnever (hvanish.file "a" _ hm) (by rw [of_decide_eq_true hnine])
  · cases hnine

end Wazir.Shared
