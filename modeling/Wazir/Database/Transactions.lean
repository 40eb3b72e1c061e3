import Wazir.Database.Turns

/-! The store's procedures keep the order of their turns serial as long as no put or delete
overtakes an update. -/

namespace Wazir.Database

open Wazir.Async

variable {h' : StoreHist}

section Procedures

variable (driver : Driver) (start : Option JsValue)

abbrev storeContract : Contract Statement StatementRes StoreRequest ℕ (Option String) Row where
  Ok h := h.Always NotOvertaken
  Inv := StoreInv driver start
  Rely := storeRely

/-- A call that returned has had its turn, and the answer is that of the turn. -/
def Answered (i : ℕ) (c : StoreRequest) (out : Except String JsValue) (h : StoreHist) : Prop :=
  ∀ value, out = .ok value → ∃ t ∈ turns h, t.thread = i ∧ t.call = c.call ∧
    t.call.sequential driver t.before = .ok (value, t.after)

variable {driver start} {h : StoreHist} {i : ℕ} {c : StoreRequest} {op : Statement}
  {fault : Option String} {r : StatementRes op} {row' : Row}

/-- Thread `i` has done nothing yet. -/
def Unbegun (h : StoreHist) (i : ℕ) : Prop := ∀ e ∈ h.entries, e.thread ≠ i

theorem Unbegun.rely (hu : Unbegun h i) (hr : storeRely i c h h') :
    Unbegun h' i := by
  obtain ⟨new, he, hi, -⟩ := hr
  intro e hmem
  rw [he] at hmem
  rcases List.mem_append.mp hmem with hmem | hmem
  · exact hu e hmem
  · exact hi e hmem

theorem answered_ran {value : JsValue} (hd : decides ⟨i, c, op, fault, r, h.shared, row'⟩ = true)
    (hs : c.call.sequential driver h.shared.committed = .ok (value, row'.committed)) :
    Answered driver i c (.ok value) (h.ran i c op fault r row') := by
  intro value' hv
  cases hv
  refine ⟨⟨i, c.call, h.shared.committed, row'.committed⟩, ?_, rfl, rfl, hs⟩
  rw [turns_ran]
  simp [turn, hd]

theorem Decides.quiet (hd : decides ⟨i, c, op, fault, r, h.shared, row'⟩ = false)
    (hread : readOf ⟨i, c, op, fault, r, h.shared, row'⟩ = none) :
    Decides driver h ⟨i, c, op, fault, r, h.shared, row'⟩ where
  sequential ht := absurd ht (by simp [hd])
  based ht := absurd ht (by simp [hd])
  reads r' hr := absurd hr (by simp [hread])

theorem Sends.bare (hs : op.session = none) (hop : ∀ client, op ≠ .connect client) :
    Sends h i c op where
  opened s h := absurd h (by simp [hs])
  connects client h := absurd h (hop client)
  locks s v h := by
    subst h
    cases hs

/-- A call that is one statement. -/
theorem single_safe (hbegin : Unbegun h i)
    (op : Statement) (hs : op.session = none) (hop : ∀ client, op ≠ .connect client)
    (hreads : ∀ fault r row row', readOf ⟨i, c, op, fault, r, row, row'⟩ = none)
    (next : StatementRes op → StoreProg JsValue)
    (hnext : ∀ row row' fault r, statement op fault row = some (r, row') →
      (∃ e, next r = .raise e ∧ decides ⟨i, c, op, fault, r, row, row'⟩ = false) ∨
      ∃ value, next r = .ret value ∧ decides ⟨i, c, op, fault, r, row, row'⟩ = true ∧
        c.call.sequential driver row.committed = .ok (value, row'.committed)) :
    Safe (StoreSystem driver) (storeContract driver start) i c (Answered driver i c)
      (.call op next) h := by
  intro h' fault r row' hrely inv hx _
  have hbegin := hbegin.rely hrely
  rcases hnext h'.shared row' fault r hx with ⟨e, he, hd⟩ | ⟨value, hv, hd, hseq⟩
  · obtain ⟨hinv, hr⟩ := ran_up inv (.bare hs hop) hx (.quiet hd (hreads _ _ _ _))
    refine ⟨hinv, hr, ?_⟩
    rw [he]
    exact fun _ => nofun
  · obtain ⟨hinv, hr⟩ := ran_up inv (.bare hs hop) hx
      ⟨fun _ => ⟨value, hseq⟩, fun _ e he hi => absurd hi (hbegin e he),
        fun r' hr => absurd hr (by simp [hreads])⟩
    refine ⟨hinv, hr, ?_⟩
    rw [hv]
    exact answered_ran hd hseq

theorem get_safe (hcall : c.call = .get) (hbegin : Unbegun h i) :
    Safe (StoreSystem driver) (storeContract driver start) i c (Answered driver i c)
      (PostgresStore.get driver) h := by
  refine single_safe hbegin .select rfl nofun (fun _ _ _ _ => rfl) _ fun row row' fault r hx => ?_
  cases fault with
  | some e =>
    cases hx
    exact .inl ⟨e, rfl, rfl⟩
  | none =>
    cases hx
    exact .inr ⟨_, rfl, rfl, by rw [hcall]; rfl⟩

theorem put_safe {value : JsValue} (hcall : c.call = .put value) (hbegin : Unbegun h i) :
    Safe (StoreSystem driver) (storeContract driver start) i c (Answered driver i c)
      (PostgresStore.put driver value) h := by
  refine single_safe hbegin (.upsert (driver.stringify value)) rfl nofun (fun _ _ _ _ => rfl) _
    fun row row' fault r hx => ?_
  cases hstored : driver.stringify value with
  | none =>
    rw [hstored] at hx
    cases fault <;> (cases hx; exact .inl ⟨_, rfl, rfl⟩)
  | some stored =>
    rw [hstored] at hx
    cases fault with
    | some e =>
      cases hx
      exact .inl ⟨e, rfl, rfl⟩
    | none =>
      simp only [statement] at hx
      split_ifs at hx
      cases hx
      refine .inr ⟨_, rfl, rfl, ?_⟩
      rw [hcall, StoreCall.sequential, hstored]

theorem delete_safe (hcall : c.call = .delete) (hbegin : Unbegun h i) :
    Safe (StoreSystem driver) (storeContract driver start) i c (Answered driver i c)
      PostgresStore.delete h := by
  refine single_safe hbegin .delete rfl nofun (fun _ _ _ _ => rfl) _ fun row row' fault r hx => ?_
  cases fault with
  | some e =>
    cases hx
    exact .inl ⟨e, rfl, rfl⟩
  | none =>
    simp only [statement] at hx
    split_ifs at hx with habsent hwait
    · cases hx
      refine .inr ⟨_, rfl, rfl, ?_⟩
      rw [hcall, Option.isNone_iff_eq_none.mp habsent]
      rfl
    · cases hx
      exact .inr ⟨_, rfl, rfl, by rw [hcall]; rfl⟩

/-- What an update knows between two statements: its session, and the one value it has read. -/
structure Knows (h : StoreHist) (i : ℕ) (c : StoreRequest) (s : Session)
    (read : Option (Option JsValue)) : Prop where
  opened : Opened h i s
  client : s.client = c.client
  quiet : ∀ e ∈ h.entries, e.thread = i → decides e = false
  reads : ∀ e ∈ h.entries, e.thread = i → ∀ r, readOf e = some r → read = some r

section Update

variable {s : Session} {read : Option (Option JsValue)}

theorem Knows.rely (hk : Knows h i c s read) (hr : storeRely i c h h') :
    Knows h' i c s read := by
  obtain ⟨new, he, hi, -⟩ := hr
  have old : ∀ e ∈ h'.entries, e.thread = i → e ∈ h.entries := by
    intro e hmem hthread
    rw [he] at hmem
    rcases List.mem_append.mp hmem with hmem | hmem
    · exact hmem
    · exact absurd hthread (hi e hmem)
  exact ⟨hk.opened.mono he, hk.client, fun e hmem ht => hk.quiet e (old e hmem ht) ht,
    fun e hmem ht => hk.reads e (old e hmem ht) ht⟩

theorem Knows.kept (hk : Knows h i c s read) (hr : storeRely i c h h') :
    ∃ new, h'.entries = h.entries ++ new ∧ (∀ e ∈ new, e.thread ≠ i) ∧
      Kept s new h.shared h'.shared := by
  obtain ⟨new, he, hi, hkept⟩ := hr
  exact ⟨new, he, hi, hkept s hk.opened hk.client⟩

theorem Knows.ran (hk : Knows h i c s read)
    (hd : decides ⟨i, c, op, fault, r, h.shared, row'⟩ = false) {read' : Option (Option JsValue)}
    (hgrow : ∀ r, read = some r → read' = some r)
    (hread : ∀ r', readOf ⟨i, c, op, fault, r, h.shared, row'⟩ = some r' → read' = some r') :
    Knows (h.ran i c op fault r row') i c s read' := by
  refine ⟨hk.opened.mono entries_ran, hk.client, fun e he ht => ?_, fun e he ht r hr => ?_⟩ <;>
    rw [entries_ran] at he <;> rcases List.mem_append.mp he with he | he
  · exact hk.quiet e he ht
  · cases List.mem_singleton.mp he
    exact hd
  · exact hgrow r (hk.reads e he ht r hr)
  · cases List.mem_singleton.mp he
    exact hread r hr

theorem Knows.sends (hk : Knows h i c s read) (hs : op.session = some s)
    (hlock : ∀ v, op = .upsertIn s v → h.shared.locked = some s) : Sends h i c op where
  opened s' h' := by
    cases hs.symm.trans h'
    exact ⟨hk.opened, hk.client⟩
  connects client h' := by
    subst h'
    cases hs
  locks s' v h' := by
    subst h'
    cases hs
    exact hlock v rfl

/-- No turn yet. -/
theorem Knows.no_turn (hk : Knows h i c s read) : ∀ t ∈ turns h, t.thread ≠ i := by
  intro t ht hthread
  obtain ⟨e, he, hturn⟩ := List.mem_filterMap.mp ht
  unfold turn at hturn
  split_ifs at hturn with hd
  cases hturn
  rw [hk.quiet e he hthread] at hd
  cases hd

/-- Before its write an update has nothing written. -/
structure Reading (h : StoreHist) (i : ℕ) (c : StoreRequest) (s : Session)
    (read : Option (Option JsValue)) : Prop where
  knows : Knows h i c s read
  own : h.shared.own s = none

theorem Reading.rely (hk : Reading h i c s read) (hr : storeRely i c h h') :
    Reading h' i c s read := by
  obtain ⟨new, -, -, hkept⟩ := hk.knows.kept hr
  exact ⟨hk.knows.rely hr, hkept.own.trans hk.own⟩

theorem locked_rely (hk : Knows h i c s read) (hl : h.shared.locked = some s)
    (hr : storeRely i c h h') : h'.shared.locked = some s := by
  obtain ⟨new, -, -, hkept⟩ := hk.kept hr
  exact (hkept.locked hl).1

theorem lastRead_rely (hr : storeRely i c h h') :
    lastRead h' i = lastRead h i := by
  obtain ⟨new, he, hi, -⟩ := hr
  have hnone : new.filter (fun e => decide (e.thread = i)) = [] :=
    List.filter_eq_nil_iff.mpr fun e hmem => by simpa using hi e hmem
  rw [lastRead, lastRead, Hist.entriesOf, Hist.entriesOf, he, List.filter_append, hnone,
    List.append_nil]

theorem mem_since {new : List StoreEntry} (he : h'.entries = h.entries ++ new)
    (hi : ∀ e ∈ new, e.thread ≠ i) {w : StoreEntry} (hw : w ∈ new) : w ∈ since h' i := by
  rw [since, he, List.reverse_append, List.takeWhile_append_of_pos fun e hmem => by
    simpa using hi e (List.mem_reverse.mp hmem)]
  exact List.mem_append_left _ (List.mem_reverse.mpr hw)

/-- Under the lock, with no put or delete in between or one that left the row as it was, an
update writes over the value it has read. -/
theorem committed_at_write {value : Option JsValue} {r : StatementRes (.upsertIn s value)}
    {stored : Option JsValue} (hk : Knows h i c s read) (hl : h.shared.locked = some s)
    (hlast : lastRead h i = some stored) (hcommitted : h.shared.committed = stored)
    (hr : storeRely i c h h')
    (hok : (h'.ran i c (.upsertIn s value) fault r row').Always NotOvertaken) :
    h'.shared.committed = stored := by
  obtain ⟨new, he, hi, hkept⟩ := hk.kept hr
  rcases (hkept.locked hl).2 with hsame | ⟨w, hw, hunlocked⟩
  · exact hsame.trans hcommitted
  · have := hok.last rfl ⟨w, mem_since he hi hw, hunlocked⟩
    rw [lastRead_rely hr, hlast] at this
    exact (Option.some.inj this).symm

/-- How a transaction ends. -/
def TransactionEnd (driver : Driver) (i : ℕ) (c : StoreRequest) (s : Session)
    (out : Except String JsValue) (h : StoreHist) : Prop :=
  Answered driver i c out h ∧ Opened h i s

/-- A statement of a transaction that decides and reads nothing. -/
theorem step_up (hk : Knows h i c s read) (hs : op.session = some s)
    (hlock : ∀ v, op = .upsertIn s v → h.shared.locked = some s)
    (hd : decides ⟨i, c, op, fault, r, h.shared, row'⟩ = false)
    (hread : readOf ⟨i, c, op, fault, r, h.shared, row'⟩ = none)
    (inv : StoreInv driver start h) (hx : statement op fault h.shared = some (r, row')) :
    (StoreInv driver start (h.ran i c op fault r row') ∧
      ∀ j d, j ≠ i → storeRely j d h (h.ran i c op fault r row')) ∧
    Knows (h.ran i c op fault r row') i c s read :=
  ⟨ran_up inv (hk.sends hs hlock) hx (.quiet hd hread),
    hk.ran hd (fun _ h => h) fun _ h => absurd h (by simp [hread])⟩

theorem begin_safe (hk : Reading h i c s none) :
    Safe (StoreSystem driver) (storeContract driver start) i c
      (fun _ h => Reading h i c s none) (.call (.begin s) .resume) h := by
  intro h' fault r row' hrely inv hx _
  have hk := hk.rely hrely
  have hsession : (Statement.begin s).session = some s := rfl
  obtain ⟨⟨hinv, hr⟩, hknows⟩ := step_up hk.knows hsession nofun rfl rfl inv hx
  refine ⟨hinv, hr, ?_⟩
  cases fault <;> (cases hx; exact ⟨hknows, hk.own⟩)

theorem lock_safe (hk : Reading h i c s none) :
    Safe (StoreSystem driver) (storeContract driver start) i c
      (fun out h => Reading h i c s none ∧ (out = .ok () → h.shared.locked = some s))
      (.call (.lock s) .resume) h := by
  intro h' fault r row' hrely inv hx _
  have hk := hk.rely hrely
  have hsession : (Statement.lock s).session = some s := rfl
  obtain ⟨⟨hinv, hr⟩, hknows⟩ := step_up hk.knows hsession nofun rfl rfl inv hx
  refine ⟨hinv, hr, ?_⟩
  cases fault with
  | some e =>
    cases hx
    exact ⟨⟨hknows, hk.own⟩, nofun⟩
  | none =>
    simp only [statement] at hx
    split_ifs at hx
    cases hx
    exact ⟨⟨hknows, hk.own⟩, fun _ => rfl⟩

theorem selectIn_safe (hk : Reading h i c s none) (hl : h.shared.locked = some s) :
    Safe (StoreSystem driver) (storeContract driver start) i c
      (fun out h => (∃ read, Reading h i c s read) ∧ ∀ stored, out = .ok stored →
        Reading h i c s (some stored) ∧ h.shared.locked = some s ∧
        lastRead h i = some stored ∧ h.shared.committed = stored)
      (.call (.selectIn s) .resume) h := by
  intro h' fault r row' hrely inv hx _
  have hl := locked_rely hk.knows hl hrely
  have hk := hk.rely hrely
  have hsends : Sends h' i c (.selectIn s) :=
    hk.knows.sends rfl (by rintro _ ⟨⟩)
  have hanswer := hx
  cases fault with
  | some e =>
    cases hanswer
    have hquiet : Decides driver h' ⟨i, c, .selectIn s, some e, .error e, h'.shared, h'.shared⟩ :=
      .quiet rfl rfl
    obtain ⟨hinv, hr⟩ := ran_up inv hsends hx hquiet
    exact ⟨hinv, hr, ⟨none, hk.knows.ran rfl (fun _ h => h) (by rintro _ ⟨⟩), hk.own⟩,
      by rintro _ ⟨⟩⟩
  | none =>
    simp only [statement, hk.own, Option.none_or] at hanswer
    cases hanswer
    have hreads : Decides driver h' ⟨i, c, .selectIn s, none, .ok h'.shared.committed, h'.shared,
        h'.shared⟩ :=
      ⟨by rintro ⟨⟩, by rintro ⟨⟩, fun r' hr => ⟨(Option.some.inj hr).symm, rfl, hk.knows.no_turn⟩⟩
    obtain ⟨hinv, hr⟩ := ran_up inv hsends hx hreads
    have hreading : Reading (h'.ran i c (.selectIn s) none (.ok h'.shared.committed) h'.shared) i c s
        (some h'.shared.committed) := ⟨hk.knows.ran rfl (by rintro _ ⟨⟩) fun _ h => h, hk.own⟩
    refine ⟨hinv, hr, ⟨_, hreading⟩, fun stored hstored => ?_⟩
    cases hstored
    refine ⟨hreading, hl, ?_, rfl⟩
    rw [lastRead, Hist.ran, Hist.entriesOf_push_ran]
    simp [readOf]

/-- What an update knows between its write and its commit. -/
structure Written (h : StoreHist) (i : ℕ) (c : StoreRequest) (s : Session)
    (read : Option JsValue) (stored : JsValue) : Prop where
  knows : Knows h i c s (some read)
  own : h.shared.own s = some stored
  under : h.shared.committed = read

theorem Written.rely {found : Option JsValue} {stored : JsValue} (hk : Written h i c s found stored)
    (hr : storeRely i c h h') :
    Written h' i c s found stored := by
  obtain ⟨new, -, -, hkept⟩ := hk.knows.kept hr
  exact ⟨hk.knows.rely hr, hkept.own.trans hk.own,
    (hkept.under (by rw [hk.own]; rfl)).trans hk.under⟩

theorem upsertIn_safe {found value : Option JsValue} (hk : Reading h i c s (some found))
    (hl : h.shared.locked = some s) (hlast : lastRead h i = some found)
    (hcommitted : h.shared.committed = found) :
    Safe (StoreSystem driver) (storeContract driver start) i c
      (fun out h => Opened h i s ∧ (out = .ok () →
        ∃ stored, value = some stored ∧ Written h i c s found stored))
      (.call (.upsertIn s value) .resume) h := by
  intro h' fault r row' hrely inv hx hok
  have hfound := committed_at_write hk.knows hl hlast hcommitted hrely hok
  have hl := locked_rely hk.knows hl hrely
  have hk := hk.rely hrely
  have hsession : (Statement.upsertIn s value).session = some s := rfl
  obtain ⟨⟨hinv, hr⟩, hknows⟩ := step_up hk.knows hsession (fun _ _ => hl) rfl rfl inv hx
  refine ⟨hinv, hr, ?_⟩
  cases fault with
  | some e =>
    cases hx
    exact ⟨hknows.opened, nofun⟩
  | none =>
    cases value with
    | none =>
      cases hx
      exact ⟨hknows.opened, nofun⟩
    | some stored =>
      simp only [statement] at hx
      split_ifs at hx
      cases hx
      exact ⟨hknows.opened, fun _ => ⟨stored, rfl, hknows, by simp [Hist.ran, Row.own], hfound⟩⟩

/-- The commit is the turn of the update. -/
theorem commit_safe {found : Option JsValue} {stored value : JsValue}
    (hk : Written h i c s found stored)
    (hseq : c.call.sequential driver found = .ok (value, some stored)) :
    Safe (StoreSystem driver) (storeContract driver start) i c
      (fun out h => Opened h i s ∧ (out = .ok () → Answered driver i c (.ok value) h))
      (.call (.commit s) .resume) h := by
  intro h' fault r row' hrely inv hx _
  have hk := hk.rely hrely
  have hsends : Sends h' i c (.commit s) := hk.knows.sends rfl (by rintro _ ⟨⟩)
  have hanswer := hx
  cases fault with
  | some e =>
    cases hanswer
    have hquiet : Decides driver h' ⟨i, c, .commit s, some e, .error e, h'.shared, h'.shared⟩ :=
      .quiet rfl rfl
    obtain ⟨hinv, hr⟩ := ran_up inv hsends hx hquiet
    exact ⟨hinv, hr, hk.knows.opened.mono entries_ran, by rintro ⟨⟩⟩
  | none =>
    simp only [statement, hk.own, Option.some_or] at hanswer
    cases hanswer
    have hseq : c.call.sequential driver h'.shared.committed = .ok (value, some stored) := by
      rw [hk.under]
      exact hseq
    have hdecides : Decides driver h' ⟨i, c, .commit s, none, .ok (), h'.shared,
        { h'.shared.release s with committed := some stored }⟩ :=
      ⟨fun _ => ⟨value, hseq⟩, fun _ e he ht r hread => by
        rw [← Option.some.inj (hk.knows.reads e he ht r hread)]
        exact hk.under, by rintro _ ⟨⟩⟩
    obtain ⟨hinv, hr⟩ := ran_up inv hsends hx hdecides
    exact ⟨hinv, hr, hk.knows.opened.mono entries_ran, fun _ => answered_ran rfl hseq⟩

/-- The statements of a transaction, up to its commit or to its first failure. -/
theorem transaction_safe {mutate : JsValue → Except String JsValue}
    (hcall : c.call = .update mutate) (hk : Reading h i c s none) :
    Safe (StoreSystem driver) (storeContract driver start) i c (TransactionEnd driver i c s)
      (PostgresStore.transaction driver mutate s) h := by
  have failed : ∀ (e : String) (h : StoreHist), Opened h i s →
      TransactionEnd driver i c s (.error e) h := fun e h ho => ⟨nofun, ho⟩
  refine (begin_safe hk).bind (fun _ h hk => ?_) fun e h hk => failed e h hk.knows.opened
  refine (lock_safe hk).bind (fun _ h hk => ?_) fun e h hk => failed e h hk.1.knows.opened
  refine (selectIn_safe hk.1 (hk.2 rfl)).bind (fun found h hk => ?_) fun e h ⟨⟨_, hk⟩, _⟩ =>
    failed e h hk.knows.opened
  obtain ⟨hk, hl, hlast, hcommitted⟩ := hk.2 found rfl
  cases hmutate : mutate (driver.read found) with
  | error e => exact failed e h hk.knows.opened
  | ok value =>
    refine (upsertIn_safe hk hl hlast hcommitted).bind (fun _ h hw => ?_) fun e h hw =>
      failed e h hw.1
    obtain ⟨stored, hstored, hw⟩ := hw.2 rfl
    have hseq : c.call.sequential driver found = .ok (value, some stored) := by
      simp [hcall, StoreCall.sequential, hmutate, hstored]
    exact (commit_safe hw hseq).bind (fun _ h hc => ⟨hc.2 rfl, hc.1⟩) fun e h hc => failed e h hc.1

theorem rollback_safe (ho : Opened h i s) (hclient : s.client = c.client)
    {next : Except String Unit → StoreProg JsValue} (hnext : ∀ r, ∃ e, next r = .raise e) :
    Safe (StoreSystem driver) (storeContract driver start) i c (Answered driver i c)
      (.call (.rollback s) next) h := by
  intro h' fault r row' hrely inv hx _
  obtain ⟨new, he, -⟩ := hrely
  have hsends : Sends h' i c (.rollback s) := ⟨fun s' hs => by
    cases hs
    exact ⟨ho.mono he, hclient⟩, nofun, nofun⟩
  obtain ⟨hinv, hr⟩ := ran_up inv hsends hx (.quiet rfl rfl)
  refine ⟨hinv, hr, ?_⟩
  obtain ⟨e, he⟩ := hnext r
  rw [he]
  exact fun _ => nofun

theorem update_safe {mutate : JsValue → Except String JsValue} (hcall : c.call = .update mutate)
    (hbegin : Unbegun h i) :
    Safe (StoreSystem driver) (storeContract driver start) i c (Answered driver i c)
      (PostgresStore.update driver c.client mutate) h := by
  intro h' fault r row' hrely inv hx _
  have hbegin := hbegin.rely hrely
  have hsends : Sends h' i c (.connect c.client) :=
    ⟨nofun, fun client hop => by cases hop; rfl, nofun⟩
  obtain ⟨hinv, hr⟩ := ran_up inv hsends hx (.quiet rfl rfl)
  refine ⟨hinv, hr, ?_⟩
  cases fault with
  | some e =>
    cases hx
    exact fun _ => nofun
  | none =>
    cases hx
    have hreading : Reading (h'.ran i c (.connect c.client) none
        (.ok ⟨c.client, h'.shared.sessions⟩) { h'.shared with sessions := h'.shared.sessions + 1 })
        i c ⟨c.client, h'.shared.sessions⟩ none := by
      refine ⟨⟨⟨_, by rw [entries_ran]; exact List.mem_append_right _ (List.mem_singleton_self _),
        rfl, rfl⟩, rfl, fun e he ht => ?_, fun e he ht r hread => ?_⟩, ?_⟩
      · rw [entries_ran] at he
        rcases List.mem_append.mp he with he | he
        · exact absurd ht (hbegin e he)
        · cases List.mem_singleton.mp he
          rfl
      · rw [entries_ran] at he
        rcases List.mem_append.mp he with he | he
        · exact absurd ht (hbegin e he)
        · cases List.mem_singleton.mp he
          cases hread
      · have hnone : h'.shared.own ⟨c.client, h'.shared.sessions⟩ = none :=
          own_eq_none_of_locked inv fun hl => lt_irrefl _ (inv.locked _ hl)
        exact hnone
    refine (transaction_safe hcall hreading).settle fun out h hend => ?_
    cases out with
    | ok value => exact hend.1
    | error e => exact rollback_safe hend.2 rfl fun r => by cases r <;> exact ⟨_, rfl⟩

end Update

theorem body_safe (hbegin : Unbegun h i) :
    Safe (StoreSystem driver) (storeContract driver start) i c (Answered driver i c)
      (c.body driver) h := by
  unfold StoreRequest.body
  split
  · exact get_safe ‹_› hbegin
  · exact put_safe ‹_› hbegin
  · exact update_safe ‹_› hbegin
  · exact delete_safe ‹_› hbegin

end Procedures

/-! Runs. -/

section Runs

variable {driver : Driver} {start : Option JsValue}

theorem StoreInv.same {h h' : StoreHist} (inv : StoreInv driver start h)
    (he : h'.entries = h.entries) (hs : h'.shared.sessions = h.shared.sessions)
    (hc : h'.shared.committed = h.shared.committed)
    (hl : ∀ s, h'.shared.locked = some s → h.shared.locked = some s)
    (hw : ∀ w, h'.shared.written = some w → h'.shared.locked = some w.1) :
    StoreInv driver start h' := by
  have hturns : turns h' = turns h := by rw [turns, he, ← turns]
  refine ⟨?_, ?_, fun s h => ?_, hw, ?_, ?_⟩
  · rw [he, hs]
    exact inv.fresh
  · rw [he]
    exact inv.apart
  · rw [hs]
    exact inv.locked s (hl s h)
  · rw [hturns, hc]
    exact inv.serial
  · rw [he, hturns]
    exact inv.handed

theorem lose_kept {row : Row} {client : ℕ} {s : Session} (hs : s.client ≠ client) : Kept s [] row (row.lose client) := by
  refine ⟨?_, fun _ => rfl, fun hl => ⟨?_, .inl rfl⟩⟩
  · unfold Row.own Row.lose
    cases h : row.written with
    | none => rfl
    | some w =>
      by_cases heq : w.1 = s
      · simp [Option.filter, heq, hs]
      · by_cases hc : w.1.client = client <;> simp [Option.filter, heq, hc]
  · simp [Row.lose, hl, Option.filter, hs]

theorem storeRely_same {h h' : StoreHist} (he : h'.entries = h.entries) (j : ℕ) (d : StoreRequest)
    (hk : ∀ s, s.client = d.client → Kept s [] h.shared h'.shared) : storeRely j d h h' :=
  ⟨[], by rw [he, List.append_nil], fun e hmem => absurd hmem (List.not_mem_nil),
    fun s _ hs => hk s hs⟩

theorem unbegun_of_fresh {h : StoreHist} {i : ℕ} (hfresh : h.entriesOf i = []) : Unbegun h i := by
  intro e hmem ht
  have : e ∈ h.entriesOf i := List.mem_filter.mpr ⟨hmem, by simpa using ht⟩
  rw [hfresh] at this
  cases this

theorem store_upheld : (storeContract driver start).Upheld (StoreSystem driver)
    (Answered driver) where
  okPrefix _ _ _ h := h.past
  refl := storeRely_refl
  trans := storeRely_trans
  began h i c s inv hfresh _ hadmit _ := by
    cases hadmit
    have he : (h.push (.began i c) h.shared).entries = h.entries := Hist.entries_push_began ..
    refine ⟨inv.same he rfl rfl (fun _ hl => hl) inv.written, fun j d _ =>
      storeRely_same he j d fun s _ => .refl .., body_safe ?_⟩
    exact unbegun_of_fresh (by rw [Hist.entriesOf_push_began]; exact hfresh)
  crashed h p inv _ := by
    have he : (h.push (.crashed p) (h.shared.lose p)).entries = h.entries :=
      Hist.entries_push_crashed ..
    refine ⟨inv.same he rfl rfl (fun s hl => (Option.filter_eq_some_iff.mp hl).1) fun w hw => ?_,
      fun j d hd => storeRely_same he j d fun s hs => lose_kept (by rw [hs]; exact hd)⟩
    obtain ⟨hold, hne⟩ := Option.filter_eq_some_iff.mp hw
    exact Option.filter_eq_some_iff.mpr ⟨inv.written w hold, hne⟩

end Runs

end Wazir.Database
