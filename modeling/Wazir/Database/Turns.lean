import Wazir.Database.PostgresStore

/-! The calls on one key in the order they take effect, and what a statement of one client leaves
alone of the others: updates wait for one another, puts and deletes do not wait for them. -/

namespace Wazir.Database

open Wazir.Async

/-- The statement by which a call takes effect. -/
def decides : StoreEntry → Bool
  | ⟨_, _, .commit _, _, .ok _, _, _⟩ => true
  | ⟨_, _, .select, _, .ok _, _, _⟩ => true
  | ⟨_, _, .upsert _, _, .ok _, _, _⟩ => true
  | ⟨_, _, .delete, _, .ok _, _, _⟩ => true
  | _ => false

def turn (e : StoreEntry) : Option Turn :=
  if decides e then some ⟨e.thread, e.call.call, e.before.committed, e.after.committed⟩ else none

/-- The calls in the order they took effect. -/
def turns (h : StoreHist) : List Turn := h.entries.filterMap turn

/-- A put or delete. -/
def unlockedWrite : StoreEntry → Bool
  | ⟨_, _, .upsert _, _, .ok _, _, _⟩ => true
  | ⟨_, _, .delete, _, .ok _, _, _⟩ => true
  | _ => false

/-- What an update reads. -/
def readOf : StoreEntry → Option (Option JsValue)
  | ⟨_, _, .selectIn _, _, .ok r, _, _⟩ => some r
  | _ => none

/-- The session that a command opens. -/
def opens : StoreEntry → Option Session
  | ⟨_, _, .connect _, _, .ok s, _, _⟩ => some s
  | _ => none

/-- What the others have done since the last command of `i`, latest first. -/
def since (h : StoreHist) (i : ℕ) : List StoreEntry :=
  h.entries.reverse.takeWhile fun e => e.thread ≠ i

/-- What the last command of `i` read. -/
def lastRead (h : StoreHist) (i : ℕ) : Option (Option JsValue) :=
  (h.entriesOf i).getLast?.bind readOf

/-- Where a put or delete came after the read of an update, the update finds the row as it read
it when it writes. -/
def NotOvertaken (h : StoreHist) (e : StoreEntry) : Prop :=
  match e.op with
  | .upsertIn _ _ => (∃ w ∈ since h e.thread, unlockedWrite w = true) →
      lastRead h e.thread = some h.shared.committed
  | _ => True

/-! What threads rely on. -/

/-- `i` has taken the connection `s`. -/
def Opened (h : StoreHist) (i : ℕ) (s : Session) : Prop :=
  ∃ e ∈ h.entries, e.thread = i ∧ opens e = some s

/-- What a thread counts on for its session: nobody writes for it, what it has written stays on
top of the value it has seen, and under its lock only puts and deletes change the row. -/
structure Kept (s : Session) (new : List StoreEntry) (row row' : Row) : Prop where
  own : row'.own s = row.own s
  under : (row.own s).isSome = true → row'.committed = row.committed
  locked : row.locked = some s → row'.locked = some s ∧
    (row'.committed = row.committed ∨ ∃ w ∈ new, unlockedWrite w = true)

def storeRely (i : ℕ) (c : StoreRequest) (h h' : StoreHist) : Prop :=
  ∃ new, h'.entries = h.entries ++ new ∧ (∀ e ∈ new, e.thread ≠ i) ∧
    ∀ s, Opened h i s → s.client = c.client → Kept s new h.shared h'.shared

theorem Kept.refl (s : Session) (new : List StoreEntry) (row : Row) : Kept s new row row :=
  ⟨rfl, fun _ => rfl, fun h => ⟨h, .inl rfl⟩⟩

theorem Kept.trans {s : Session} {new new' : List StoreEntry} {row row' row'' : Row}
    (h : Kept s new row row') (h' : Kept s new' row' row'') : Kept s (new ++ new') row row'' where
  own := h'.own.trans h.own
  under hs := (h'.under (by rwa [h.own])).trans (h.under hs)
  locked hl := by
    obtain ⟨hl', hc⟩ := h.locked hl
    obtain ⟨hl'', hc'⟩ := h'.locked hl'
    refine ⟨hl'', ?_⟩
    rcases hc with hc | ⟨w, hw, hu⟩
    · rcases hc' with hc' | ⟨w, hw, hu⟩
      · exact .inl (hc'.trans hc)
      · exact .inr ⟨w, List.mem_append_right _ hw, hu⟩
    · exact .inr ⟨w, List.mem_append_left _ hw, hu⟩

theorem storeRely_refl (i : ℕ) (c : StoreRequest) (h : StoreHist) : storeRely i c h h :=
  ⟨[], by simp, by simp, fun s _ _ => .refl s [] h.shared⟩

theorem Opened.mono {h h' : StoreHist} {i : ℕ} {s : Session} {new : List StoreEntry}
    (ho : Opened h i s) (he : h'.entries = h.entries ++ new) : Opened h' i s := by
  obtain ⟨e, hmem, hi, hs⟩ := ho
  exact ⟨e, by rw [he]; exact List.mem_append_left _ hmem, hi, hs⟩

theorem storeRely_trans (i : ℕ) (c : StoreRequest) (h₁ h₂ h₃ : StoreHist)
    (h₁₂ : storeRely i c h₁ h₂) (h₂₃ : storeRely i c h₂ h₃) : storeRely i c h₁ h₃ := by
  obtain ⟨new, he, hi, hk⟩ := h₁₂
  obtain ⟨new', he', hi', hk'⟩ := h₂₃
  refine ⟨new ++ new', by rw [he', he, List.append_assoc], fun e hmem => ?_, fun s ho hc => ?_⟩
  · rcases List.mem_append.mp hmem with hmem | hmem
    · exact hi e hmem
    · exact hi' e hmem
  · exact (hk s ho hc).trans (hk' s (ho.mono he) hc)

/-! The invariant. -/

structure StoreInv (driver : Driver) (start : Option JsValue) (h : StoreHist) : Prop where
  fresh : ∀ e ∈ h.entries, ∀ s, opens e = some s →
    s.number < h.shared.sessions ∧ s.client = e.call.client
  apart : ∀ e ∈ h.entries, ∀ e' ∈ h.entries, ∀ s, opens e = some s → opens e' = some s →
    e.thread = e'.thread
  locked : ∀ s, h.shared.locked = some s → s.number < h.shared.sessions
  written : ∀ w, h.shared.written = some w → h.shared.locked = some w.1
  serial : Serial driver start (turns h) h.shared.committed
  handed : ∀ e ∈ h.entries, ∀ r, readOf e = some r →
    (∃ done rest, turns h = done ++ rest ∧ Serial driver start done r) ∧
      ∀ t ∈ turns h, t.thread = e.thread → t.before = r

section Rows

variable {row : Row} {s s' : Session}

theorem own_of_written {value : JsValue} (h : row.own s = some value) :
    row.written = some (s, value) := by
  unfold Row.own at h
  obtain ⟨⟨s', value'⟩, hw, hs⟩ := Option.bind_eq_some_iff.mp h
  split_ifs at hs with heq
  · cases heq
    cases hs
    exact hw

theorem own_release_ne (h : s ≠ s') : (row.release s').own s = row.own s := by
  unfold Row.release Row.own
  cases row.written with
  | none => rfl
  | some w =>
    by_cases hw : w.1 = s
    · simp [Option.filter, hw, h]
    · by_cases hw' : w.1 = s' <;> simp [Option.filter, hw, hw', Ne.symm h]

theorem locked_release_ne (h : s ≠ s') (hl : row.locked = some s) :
    (row.release s').locked = some s := by
  simp [Row.release, hl, Option.filter, h]

theorem own_eq_none_of_locked {driver : Driver} {start : Option JsValue} {h : StoreHist}
    (inv : StoreInv driver start h) (hs : h.shared.locked ≠ some s) : h.shared.own s = none := by
  cases ho : h.shared.own s with
  | none => rfl
  | some value => exact absurd (inv.written _ (own_of_written ho)) hs

end Rows

section Steps

variable {driver : Driver} {start : Option JsValue} {h : StoreHist} {i : ℕ} {c : StoreRequest}
  {op : Statement} {fault : Option String} {r : StatementRes op} {row' : Row}

/-- What a statement can do to the row. -/
inductive Effect : (op : Statement) → StatementRes op → Row → Row → Prop
  | stays (op r row) : Effect op r row row
  | connects (client row) : Effect (.connect client) (.ok ⟨client, row.sessions⟩) row
      { row with sessions := row.sessions + 1 }
  | locks (s row) (free : ∀ holder, row.locked = some holder → holder = s) :
      Effect (.lock s) (.ok ()) row { row with locked := some s }
  | writes (s value row) : Effect (.upsertIn s (some value)) (.ok ()) row
      { row with written := some (s, value) }
  | commits (s row) : Effect (.commit s) (.ok ()) row
      { row.release s with committed := (row.own s).or row.committed }
  | rollsBack (s r row) : Effect (.rollback s) r row (row.release s)
  | puts (value row) (free : row.written = none) : Effect (.upsert (some value)) (.ok ()) row
      { row with committed := some value }
  | deletes (row) (free : row.written = none) : Effect .delete (.ok ()) row
      { row with committed := none }

theorem statement_effect {row : Row} (hx : statement op fault row = some (r, row')) :
    Effect op r row row' := by
  cases op with
  | connect client => cases fault <;> cases hx <;> constructor
  | begin s => cases fault <;> cases hx <;> constructor
  | lock s =>
    cases fault with
    | some e => cases hx; constructor
    | none =>
      simp only [statement] at hx
      split_ifs at hx with hheld
      cases hx
      refine .locks s row fun holder hl => ?_
      by_contra hne
      exact hheld (by simp [hl, hne])
  | selectIn s => cases fault <;> cases hx <;> constructor
  | upsertIn s value =>
    cases fault with
    | some e => cases hx; constructor
    | none =>
      cases value with
      | none => cases hx; constructor
      | some value =>
        simp only [statement] at hx
        split_ifs at hx
        cases hx
        exact .writes s value row
  | commit s => cases fault <;> cases hx <;> constructor
  | rollback s => cases fault <;> cases hx <;> constructor
  | select => cases fault <;> cases hx <;> constructor
  | upsert value =>
    cases fault with
    | some e => cases hx; constructor
    | none =>
      cases value with
      | none => cases hx; constructor
      | some value =>
        simp only [statement] at hx
        split_ifs at hx with hwait
        cases hx
        exact .puts value row (by simpa using hwait)
  | delete =>
    cases fault with
    | some e => cases hx; constructor
    | none =>
      simp only [statement] at hx
      split_ifs at hx with habsent hwait
      · cases hx
        constructor
      · cases hx
        exact .deletes row (by simpa using hwait)

/-- The session a statement is sent on. -/
def Statement.session : Statement → Option Session
  | .begin s | .lock s | .selectIn s | .upsertIn s _ | .commit s | .rollback s => some s
  | _ => none

/-- What the sender of a statement knows: its session is its own and writes only under the lock. -/
structure Sends (h : StoreHist) (i : ℕ) (c : StoreRequest) (op : Statement) : Prop where
  opened : ∀ s, op.session = some s → Opened h i s ∧ s.client = c.client
  connects : ∀ client, op = .connect client → client = c.client
  locks : ∀ s v, op = .upsertIn s v → h.shared.locked = some s

/-- What one statement does to the session of another thread. -/
theorem statement_kept (inv : StoreInv driver start h) (hsends : Sends h i c op)
    (hx : statement op fault h.shared = some (r, row')) {j : ℕ} (hij : j ≠ i) {s : Session}
    (hs : Opened h j s) : Kept s [⟨i, c, op, fault, r, h.shared, row'⟩] h.shared row' := by
  have other : ∀ s', op.session = some s' → s ≠ s' := by
    intro s' hs' heq
    obtain ⟨e, he, hj, ho⟩ := hs
    obtain ⟨e', he', hi, ho'⟩ := (hsends.opened s' hs').1
    exact hij (by rw [← hj, ← hi]; exact inv.apart e he e' he' s ho (heq ▸ ho'))
  have unwritten : h.shared.written = none → ¬ (h.shared.own s).isSome = true := by
    intro hfree hown
    obtain ⟨value, hv⟩ := Option.isSome_iff_exists.mp hown
    simp [own_of_written hv] at hfree
  cases statement_effect hx with
  | stays => exact .refl ..
  | connects client => exact ⟨rfl, fun _ => rfl, fun hl => ⟨hl, .inl rfl⟩⟩
  | locks s' _ free =>
    exact ⟨rfl, fun _ => rfl, fun hl => absurd (free s hl) (other s' rfl)⟩
  | writes s' value =>
    have hne := other s' rfl
    have hnone : h.shared.own s = none :=
      own_eq_none_of_locked inv (by rw [hsends.locks s' _ rfl]; simpa using hne.symm)
    have hown : ({ h.shared with written := some (s', value) } : Row).own s = none := by
      simp [Row.own, hne.symm]
    exact ⟨hown.trans hnone.symm, fun _ => rfl, fun hl => ⟨hl, .inl rfl⟩⟩
  | commits s' =>
    have hne := other s' rfl
    have committed : h.shared.locked = some s →
        (h.shared.own s').or h.shared.committed = h.shared.committed := by
      intro hl
      rw [own_eq_none_of_locked inv (by rw [hl]; simpa using hne), Option.none_or]
    refine ⟨own_release_ne hne, fun hs => ?_, fun hl => ⟨locked_release_ne hne hl,
      .inl (committed hl)⟩⟩
    obtain ⟨value, hv⟩ := Option.isSome_iff_exists.mp hs
    exact committed (inv.written _ (own_of_written hv))
  | rollsBack s' =>
    have hne := other s' rfl
    exact ⟨own_release_ne hne, fun _ => rfl, fun hl => ⟨locked_release_ne hne hl, .inl rfl⟩⟩
  | puts value _ free =>
    exact ⟨rfl, fun hs => absurd hs (unwritten free), fun hl =>
      ⟨hl, .inr ⟨_, List.mem_singleton_self _, rfl⟩⟩⟩
  | deletes _ free =>
    exact ⟨rfl, fun hs => absurd hs (unwritten free), fun hl =>
      ⟨hl, .inr ⟨_, List.mem_singleton_self _, rfl⟩⟩⟩

/-- Only the statements that decide a call change the committed row. -/
theorem committed_of_not_decides {row : Row} (heffect : Effect op r row row')
    (hd : decides ⟨i, c, op, fault, r, row, row'⟩ = false) : row'.committed = row.committed := by
  cases heffect with
  | commits | puts | deletes => cases hd
  | stays | connects | locks | writes | rollsBack => rfl

theorem turns_ran : turns (h.ran i c op fault r row') =
    turns h ++ (turn ⟨i, c, op, fault, r, h.shared, row'⟩).toList := by
  rw [turns, Hist.ran, Hist.entries_push_ran, List.filterMap_append, ← turns,
    List.filterMap_cons, List.filterMap_nil]
  cases turn ⟨i, c, op, fault, r, h.shared, row'⟩ <;> rfl

theorem entries_ran : (h.ran i c op fault r row').entries =
    h.entries ++ [⟨i, c, op, fault, r, h.shared, row'⟩] := Hist.entries_push_ran ..

/-- What a thread may decide: what it decides is right where it stands, and its reads say what
stands there. -/
structure Decides (driver : Driver) (h : StoreHist) (e : StoreEntry) : Prop where
  sequential : decides e = true → ∃ out,
    e.call.call.sequential driver e.before.committed = .ok (out, e.after.committed)
  based : decides e = true → ∀ e' ∈ h.entries, e'.thread = e.thread → ∀ r, readOf e' = some r →
    e.before.committed = r
  reads : ∀ r, readOf e = some r → r = e.before.committed ∧ decides e = false ∧
    ∀ t ∈ turns h, t.thread ≠ e.thread

theorem sessions_le {row : Row} (heffect : Effect op r row row') :
    row.sessions ≤ row'.sessions := by
  cases heffect with
  | connects => exact Nat.le_succ _
  | stays | locks | writes | commits | rollsBack | puts | deletes => exact le_rfl

theorem locked_effect {row : Row} (heffect : Effect op r row row') {s : Session}
    (hl : row'.locked = some s) : row.locked = some s ∨ op = .lock s := by
  cases heffect with
  | locks s' =>
    cases hl
    exact .inr rfl
  | commits s' | rollsBack s' => exact .inl (Option.filter_eq_some_iff.mp hl).1
  | stays | connects | writes | puts | deletes => exact .inl hl

theorem written_effect {row : Row} (heffect : Effect op r row row')
    (hw : ∀ w, row.written = some w → row.locked = some w.1)
    (hlock : ∀ s v, op = .upsertIn s v → row.locked = some s) :
    ∀ w, row'.written = some w → row'.locked = some w.1 := by
  intro w hw'
  cases heffect with
  | locks s _ free =>
    rw [free _ (hw w hw')]
  | commits s | rollsBack s =>
    obtain ⟨hold, hne⟩ := Option.filter_eq_some_iff.mp hw'
    exact Option.filter_eq_some_iff.mpr ⟨hw w hold, hne⟩
  | writes s value =>
    cases hw'
    exact hlock s _ rfl
  | stays | connects | puts | deletes => exact hw w hw'

theorem opens_statement {row : Row} (hx : statement op fault row = some (r, row')) {s : Session}
    (ho : opens ⟨i, c, op, fault, r, row, row'⟩ = some s) :
    op = .connect s.client ∧ s.number = row.sessions ∧ row'.sessions = row.sessions + 1 := by
  cases op with
  | connect client =>
    cases fault with
    | some e => cases hx; cases ho
    | none =>
      cases hx
      cases ho
      exact ⟨rfl, rfl, rfl⟩
  | begin | lock | selectIn | upsertIn | commit | rollback | select | upsert | delete => cases ho

/-- A serial order that is extended by the turn that a statement decides. -/
theorem serial_ran (inv : StoreInv driver start h)
    (hx : statement op fault h.shared = some (r, row'))
    (hdecides : Decides driver h ⟨i, c, op, fault, r, h.shared, row'⟩) :
    Serial driver start (turns (h.ran i c op fault r row')) row'.committed := by
  rw [turns_ran]
  refine inv.serial.append ?_
  cases hd : decides ⟨i, c, op, fault, r, h.shared, row'⟩ with
  | true =>
    simp only [turn, hd, if_true, Option.toList_some]
    exact ⟨rfl, hdecides.sequential hd, rfl⟩
  | false =>
    simp only [turn, hd, Bool.false_eq_true, if_false, Option.toList_none]
    exact (committed_of_not_decides (statement_effect hx) hd).symm

theorem StoreInv.ran (inv : StoreInv driver start h) (hsends : Sends h i c op)
    (hx : statement op fault h.shared = some (r, row'))
    (hdecides : Decides driver h ⟨i, c, op, fault, r, h.shared, row'⟩) :
    StoreInv driver start (h.ran i c op fault r row') := by
  have heffect := statement_effect hx
  refine ⟨fun e he s ho => ?_, fun e he e' he' s ho ho' => ?_, fun s hl => ?_, ?_,
    serial_ran inv hx hdecides, fun e he r' hr => ?_⟩
  · rw [entries_ran] at he
    rcases List.mem_append.mp he with he | he
    · obtain ⟨hnum, hclient⟩ := inv.fresh e he s ho
      exact ⟨hnum.trans_le (sessions_le heffect), hclient⟩
    · cases List.mem_singleton.mp he
      obtain ⟨hop, hnum, hnext⟩ := opens_statement hx ho
      refine ⟨?_, hsends.connects _ hop⟩
      show s.number < row'.sessions
      omega
  · rw [entries_ran] at he he'
    -- a session that has just been opened has a number no other has
    have newest : ∀ e ∈ h.entries, opens e = some s →
        opens ⟨i, c, op, fault, r, h.shared, row'⟩ ≠ some s := by
      intro e he ho hnew
      have hlt := (inv.fresh e he s ho).1
      rw [(opens_statement hx hnew).2.1] at hlt
      exact lt_irrefl _ hlt
    rcases List.mem_append.mp he with he | he <;> rcases List.mem_append.mp he' with he' | he'
    · exact inv.apart e he e' he' s ho ho'
    · cases List.mem_singleton.mp he'
      exact absurd ho' (newest e he ho)
    · cases List.mem_singleton.mp he
      exact absurd ho (newest e' he' ho')
    · rw [List.mem_singleton.mp he, List.mem_singleton.mp he']
  · rcases locked_effect heffect hl with hl | rfl
    · exact (inv.locked s hl).trans_le (sessions_le heffect)
    · obtain ⟨⟨e, he, -, ho⟩, -⟩ := hsends.opened s rfl
      exact (inv.fresh e he s ho).1.trans_le (sessions_le heffect)
  · exact written_effect heffect inv.written hsends.locks
  · rw [entries_ran] at he
    rw [turns_ran]
    rcases List.mem_append.mp he with he | he
    · obtain ⟨⟨done, rest, hsplit, hserial⟩, hbased⟩ := inv.handed e he r' hr
      refine ⟨⟨done, _, by rw [hsplit, List.append_assoc], hserial⟩, fun t ht hthread => ?_⟩
      rcases List.mem_append.mp ht with ht | ht
      · exact hbased t ht hthread
      · obtain ⟨hd, rfl⟩ : decides ⟨i, c, op, fault, r, h.shared, row'⟩ = true ∧
            t = ⟨i, c.call, h.shared.committed, row'.committed⟩ := by
          unfold turn at ht
          split_ifs at ht with hd
          · exact ⟨hd, by simpa using ht⟩
          · simp at ht
        exact hdecides.based hd e he hthread.symm r' hr
    · cases List.mem_singleton.mp he
      obtain ⟨rfl, hd, hquiet⟩ := hdecides.reads r' hr
      simp only [turn, hd, Bool.false_eq_true, if_false, Option.toList_none, List.append_nil]
      exact ⟨⟨turns h, [], (List.append_nil _).symm, inv.serial⟩, fun t ht hthread =>
        absurd hthread (hquiet t ht)⟩

/-- One statement restores the invariant and keeps what the others rely on. -/
theorem ran_up (inv : StoreInv driver start h) (hsends : Sends h i c op)
    (hx : statement op fault h.shared = some (r, row'))
    (hdecides : Decides driver h ⟨i, c, op, fault, r, h.shared, row'⟩) :
    StoreInv driver start (h.ran i c op fault r row') ∧
      ∀ j d, j ≠ i → storeRely j d h (h.ran i c op fault r row') :=
  ⟨inv.ran hsends hx hdecides, fun j d hij => ⟨_, entries_ran, by simpa using hij.symm,
    fun s hs _ => statement_kept inv hsends hx hij hs⟩⟩

end Steps

end Wazir.Database
